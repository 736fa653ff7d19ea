import Mathlib
import OneMail.Backfill.Migration
import OneMail.Lib.Ordered

/-! What `verify` of `backfill_shard.mjs` says about the two stores.

    Each side is read page by page in the order of the ids, and the two readings are walked in lock step.
    A reading yields every row in scope once (`emailsById_reads`), so the walk ends and finds every source
    row in the target or fails (`walk_verifyEmails`); the folder catalogue is compared chunk by chunk. With
    a digest that keeps rows apart, `verify` succeeds exactly when the target has every source row in scope
    and the catalogue (`verify_exact`). -/

namespace OneMail.Backfill
open Table Ordered JsString

/-! ### Reading the emails by id -/

/-- `emailPage` in the order of the ids; an empty cursor is none. -/
def emailPageById (before : JsString → JsString → Bool) (rows : List Row) (account : JsString)
    (cursor : Option JsString) (size : ℕ) : List Row :=
  selectTop (fun row => emailScope account row && (cursor.getD [] = [] || cursor.any fun k => before k row.id))
    (fun a b => ¬ before b.id a.id = true) size rows

/-- A run of `emailsById`: the cursor of the next page, and what has not been yielded of this one. -/
structure Reader where
  cursor : Option JsString
  page : List Row

def Reader.start : Reader := ⟨none, []⟩

/-- The next row; `none` when the run is over. -/
def Reader.next (fetch : Option JsString → List Row) (r : Reader) : Option (Row × Reader) :=
  match r.page with
  | row :: rest => some (row, ⟨r.cursor, rest⟩)
  | [] =>
    match fetch r.cursor with
    | [] => none
    | row :: rest => some (row, ⟨some ((row :: rest).getLast (List.cons_ne_nil _ _)).id, rest⟩)

/-! ### The folder catalogue -/

/-- A row of `mail_account_folders`: the columns of its identity, and the other digested ones. -/
structure FolderRow where
  id : ℤ
  mailAccountId : JsString
  provider : JsString
  providerFolderId : Option JsString
  canonicalName : JsString
  others : List Value
  deriving DecidableEq

/-- `folderIdentity` -/
def FolderRow.identity (f : FolderRow) : JsString × JsString × (JsString ⊕ JsString) :=
  (f.mailAccountId, f.provider, match f.providerFolderId with
    | none => .inl f.canonicalName
    | some id => .inr id)

def folderPage (folders : List FolderRow) (account : JsString) (cursor : Option ℤ) (size : ℕ) : List FolderRow :=
  selectTop (fun f => f.mailAccountId = account && cursor.all fun k => k < f.id) (fun a b => a.id ≤ b.id) size folders

/-- The predicate that a folder of a chunk contributes. -/
def FolderRow.predicate (f m : FolderRow) : Bool :=
  m.provider = f.provider && match f.providerFolderId with
    | none => m.providerFolderId = none && m.canonicalName = f.canonicalName
    | some id => m.providerFolderId = some id

variable (digest : Row → BitVec 256) (digestFolder : FolderRow → BitVec 256)

/-- One chunk of `verifyFolderChunk`. -/
def verifyFolders (target chunk : List FolderRow) : Bool :=
  let found := (target.filter fun m =>
    (chunk.head?.any fun f => m.mailAccountId = f.mailAccountId) && chunk.any fun f => f.predicate m).take
      (chunk.length + 1)
  found.length = chunk.length && chunk.all fun f =>
    match found.filter fun m => m.identity = f.identity with
    | [m] => digestFolder f = digestFolder m
    | _ => false

/-- `verifyFolderChunk`, from an offset on. -/
def verifyFolderChunk (target : List FolderRow) : ℕ → List FolderRow → Bool
  | 0, _ => true
  | n + 1, page =>
    page.isEmpty || verifyFolders digestFolder target (page.take 49) && verifyFolderChunk target n (page.drop 49)

/-- The loop over the folder pages: the digests of the folders, or the failure; the outer `none` when it
    is not through after `n` pages. -/
def walkFolders (source target : List FolderRow) (account : JsString) (size : ℕ) :
    ℕ → Option ℤ → List (BitVec 256) → Option (Option (List (BitVec 256)))
  | 0, _, _ => none
  | n + 1, cursor, digests =>
    match folderPage source account cursor size with
    | [] => some (some digests)
    | f :: rest =>
      if verifyFolderChunk digestFolder target (f :: rest).length (f :: rest) = true then
        walkFolders source target account size n (some ((f :: rest).getLast (List.cons_ne_nil _ _)).id)
          (digests ++ (f :: rest).map digestFolder)
      else some none

/-! ### The walk over the emails -/

/-- Where the loops of `verify` stand: the source row in hand, if there is one, and the target row. -/
structure Walk where
  reader : Reader
  row : Option Row
  remote : Option Row
  remoteReader : Reader
  tally : Tally

/-- `remote = await iterator.next()` -/
def Walk.pull (fetch : Option JsString → List Row) (w : Walk) : Walk :=
  match w.remoteReader.next fetch with
  | some (m, r) => { w with remote := some m, remoteReader := r }
  | none => { w with remote := none }

/-- One step of the loops; `inr` is the end of the emails, with `none` for a mismatch. -/
def Walk.step (fetch fetchTarget : Option JsString → List Row) (w : Walk) : Walk ⊕ Option Tally :=
  match w.row with
  | none =>
    match w.reader.next fetch with
    | some (row, r) => .inl { w with row := some row, reader := r }
    | none =>
      match w.remote with
      | none => .inr (some w.tally)
      | some _ => .inl { w.pull fetchTarget with tally.targetCount := w.tally.targetCount + 1 }
  | some row =>
    match w.remote with
    | none => .inr none
    | some m =>
      if m.id < row.id then .inl { w.pull fetchTarget with tally.targetCount := w.tally.targetCount + 1 }
      else if m.id = row.id ∧ digest row = digest m then
        .inl { w.pull fetchTarget with
          row := none
          tally.sourceCount := w.tally.sourceCount + 1
          tally.targetCount := w.tally.targetCount + 1
          tally.sourceDigest := w.tally.sourceDigest ^^^ digest row }
      else .inr none

def Walk.run (fetch fetchTarget : Option JsString → List Row) : ℕ → Walk → Option (Option Tally)
  | 0, _ => none
  | n + 1, w =>
    match w.step digest fetch fetchTarget with
    | .inl w' => w'.run fetch fetchTarget n
    | .inr result => some result

/-- The contents of a database, as far as `verify` reads it. -/
structure Content where
  emails : List Row
  folders : List FolderRow

/-- `verify` in at most `n` steps of each loop; the inner `none` is a failed verification. -/
def runVerify (before : JsString → JsString → Bool) (source target : Content) (account : JsString) (size n : ℕ) :
    Option (Option Tally) :=
  let fetch cursor := emailPageById before source.emails account cursor size
  let fetchTarget cursor := emailPageById before target.emails account cursor size
  let first : Walk := ⟨.start, none, none, .start, ⟨0, 0, 0, 0⟩⟩
  match (first.pull fetchTarget).run digest fetch fetchTarget n with
  | none => none
  | some none => some none
  | some (some t) =>
    (walkFolders digestFolder source.folders target.folders account size n none []).map fun outcome =>
      outcome.map fun ds => { t with folderCount := ds.length, sourceDigest := ds.foldl (· ^^^ ·) t.sourceDigest }

/-! ### A run yields every row once -/

/-- The run yields these rows and ends. -/
def Reads (fetch : Option JsString → List Row) : Reader → List Row → Prop
  | r, [] => r.next fetch = none
  | r, row :: rest => ∃ r', r.next fetch = some (row, r') ∧ Reads fetch r' rest

/-- SQLite orders the ids as JavaScript does. -/
def Agrees (before : JsString → JsString → Bool) (ids : List JsString) : Prop :=
  ∀ a ∈ ids, ∀ b ∈ ids, before a b = true ↔ a < b

variable {before : JsString → JsString → Bool} {rows : List Row} {account : JsString} {size : ℕ}

theorem emailsById_eq (rows : List Row) (account : JsString) :
    emailsById rows account = sortBy (·.id) (rows.filter (emailScope account)) := by
  have hle (a b : Row) : byId a b ↔ a.id ≤ b.id := not_lt
  have hmap := List.map_insertionSort byId (fun a b : Row => a.id ≤ b.id) id
    (rows.filter (emailScope account)) (fun a _ b _ => hle a b)
  rwa [List.map_id, List.map_id] at hmap

theorem emailsById_ascending (hids : (rows.map (·.id)).Nodup) : Ascending (·.id) (emailsById rows account) := by
  rw [emailsById_eq]
  exact sortBy_ascending (hids.sublist (List.filter_sublist.map _))

theorem mem_emailsById {row : Row} : row ∈ emailsById rows account ↔ row ∈ rows ∧ emailScope account row = true := by
  rw [emailsById_eq, mem_sortBy, List.mem_filter]

/-- A page holds the first rows after the cursor. -/
theorem emailPageById_eq (hagree : Agrees before (rows.map (·.id))) (hids : (rows.map (·.id)).Nodup)
    {cursor : Option JsString} (hcursor : ∀ k ∈ cursor, k ≠ [] ∧ k ∈ rows.map (·.id)) :
    emailPageById before rows account cursor size =
      ((emailsById rows account).filter (beyond Row.id cursor)).take size := by
  have hwhere : ∀ row ∈ rows, (emailScope account row &&
      (cursor.getD [] = [] || cursor.any fun k => before k row.id)) =
      (emailScope account row && beyond Row.id cursor row) := by
    intro row hrow
    rcases cursor with _ | k
    · simp [beyond]
    · obtain ⟨hne, hmem⟩ := hcursor k rfl
      rw [Bool.eq_iff_iff]
      simp [hne, beyond, hagree k hmem row.id (List.mem_map_of_mem hrow)]
  have hsort := List.map_insertionSort (fun a b : Row => ¬ before b.id a.id = true) (fun a b : Row => a.id ≤ b.id) id
    (rows.filter fun row => emailScope account row && beyond Row.id cursor row) fun a ha b hb => by
      have ha := List.mem_map_of_mem (f := Row.id) (List.mem_filter.mp ha).1
      have hb := List.mem_map_of_mem (f := Row.id) (List.mem_filter.mp hb).1
      rw [hagree _ hb _ ha, not_lt]
      rfl
  rw [List.map_id, List.map_id] at hsort
  rw [emailPageById, selectTop, List.filter_congr hwhere, hsort, emailsById_eq,
    ← sortBy_filter (hids.sublist (List.filter_sublist.map _)), List.filter_filter, sortBy]
  congr 2
  exact List.filter_congr fun row _ => Bool.and_comm _ _

/-- `emailsById` yields the rows in scope in the order of their ids, each once. -/
theorem emailsById_reads (hagree : Agrees before (rows.map (·.id))) (hids : (rows.map (·.id)).Nodup)
    (hne : ∀ row ∈ rows, emailScope account row = true → row.id ≠ []) (hsize : 0 < size) :
    Reads (emailPageById before rows account · size) .start (emailsById rows account) := by
  have hascending : Ascending (·.id) (emailsById rows account) := emailsById_ascending hids
  -- from any reader: what is left of its page, and then the rows after its cursor
  have hgen : ∀ (l page : List Row) (cursor : Option JsString),
      (∀ k ∈ cursor, k ≠ [] ∧ k ∈ rows.map (·.id)) →
      l = page ++ (emailsById rows account).filter (beyond Row.id cursor) →
      Reads (emailPageById before rows account · size) ⟨cursor, page⟩ l := by
    intro l
    induction l with
    | nil =>
      intro page cursor hcursor hl
      obtain ⟨hpage, hrest⟩ := List.append_eq_nil_iff.mp hl.symm
      subst hpage
      simp only [Reads, Reader.next, emailPageById_eq hagree hids hcursor, hrest, List.take_nil]
    | cons row l ih =>
      intro page cursor hcursor hl
      rcases page with _ | ⟨first, page⟩
      · rw [List.nil_append] at hl
        have hpage := @emailPageById_eq _ _ account size hagree hids _ hcursor
        rw [← hl] at hpage
        obtain ⟨size, rfl⟩ : ∃ m, size = m + 1 := ⟨size - 1, by omega⟩
        have hlast : (((row :: l).take (size + 1)).getLast? =
            some ((row :: l.take size).getLast (List.cons_ne_nil _ _))) := by
          rw [List.take_succ_cons, List.getLast?_eq_getLast_of_ne_nil (List.cons_ne_nil _ _)]
        have hcut := hascending.page (n := size + 1) cursor (by rw [← hl]; exact hlast)
        rw [← hl, List.take_succ_cons, List.cons_append, List.cons.injEq] at hcut
        rw [List.take_succ_cons] at hpage
        refine ⟨⟨some ((row :: l.take size).getLast (List.cons_ne_nil _ _)).id, l.take size⟩, ?_, ?_⟩
        · simp only [Reader.next, hpage]
        · refine ih _ _ (fun k hk => ?_) hcut.2
          obtain rfl := Option.mem_some_iff.mp hk
          have hmem : (row :: l.take size).getLast (List.cons_ne_nil _ _) ∈ emailsById rows account := by
            have hmem := ((List.take_sublist size l).cons_cons row).subset
              (List.getLast_mem (List.cons_ne_nil row (l.take size)))
            rw [hl] at hmem
            exact (List.mem_filter.mp hmem).1
          obtain ⟨hrow, hscope⟩ := mem_emailsById.mp hmem
          exact ⟨hne _ hrow hscope, List.mem_map_of_mem hrow⟩
      · rw [List.cons_append, List.cons.injEq] at hl
        obtain ⟨rfl, hrest⟩ := hl
        exact ⟨_, rfl, ih page cursor hcursor hrest⟩
  exact hgen _ [] none (fun k hk => by cases hk) (List.filter_eq_self.mpr fun _ _ => rfl).symm

/-! ### The walk is the merge of the two readings -/

variable {digest} {fetch fetchTarget : Option JsString → List Row}

/-- The target row in hand and the rows that the target's run still yields. -/
def Remote (fetchTarget : Option JsString → List Row) (remote : Option Row) (reader : Reader) : List Row → Prop
  | [] => remote = none
  | m :: rest => remote = some m ∧ Reads fetchTarget reader rest

theorem pull_spec {w : Walk} {rest : List Row} (h : Reads fetchTarget w.remoteReader rest) :
    Remote fetchTarget (w.pull fetchTarget).remote (w.pull fetchTarget).remoteReader rest ∧
      (w.pull fetchTarget).row = w.row ∧ (w.pull fetchTarget).reader = w.reader ∧
        (w.pull fetchTarget).tally = w.tally := by
  unfold Walk.pull
  rcases rest with _ | ⟨m, rest⟩
  · have hnext : w.remoteReader.next fetchTarget = none := h
    rw [hnext]
    exact ⟨rfl, rfl, rfl, rfl⟩
  · obtain ⟨r, hnext, hr⟩ := h
    rw [hnext]
    exact ⟨⟨rfl, hr⟩, rfl, rfl, rfl⟩

/-- A target row before the source row in hand is counted and passed over. -/
theorem verifyEmails_skip {row m : Row} (h : m.id < row.id) (rows remote : List Row) (t : Tally) :
    verifyEmails digest (row :: rows) (m :: remote) t =
      verifyEmails digest (row :: rows) remote { t with targetCount := t.targetCount + 1 } := by
  have hdrop : (m :: remote).dropWhile (fun m => m.id < row.id) = remote.dropWhile fun m => m.id < row.id :=
    List.dropWhile_cons_of_pos (decide_eq_true h)
  have htake : (m :: remote).takeWhile (fun m => m.id < row.id) = m :: remote.takeWhile fun m => m.id < row.id :=
    List.takeWhile_cons_of_pos (decide_eq_true h)
  rw [verifyEmails, verifyEmails, hdrop, htake]
  split
  · rfl
  · simp only [List.length_cons, Nat.add_assoc, Nat.add_comm 1]

theorem verifyEmails_meet {row m : Row} (h : ¬ m.id < row.id) (rows remote : List Row) (t : Tally) :
    verifyEmails digest (row :: rows) (m :: remote) t =
      if m.id = row.id ∧ digest row = digest m then
        verifyEmails digest rows remote
          { t with
            sourceCount := t.sourceCount + 1
            targetCount := t.targetCount + 1
            sourceDigest := t.sourceDigest ^^^ digest row }
      else none := by
  have hdrop : (m :: remote).dropWhile (fun m => m.id < row.id) = m :: remote :=
    List.dropWhile_cons_of_neg (by simpa using h)
  have htake : (m :: remote).takeWhile (fun m => m.id < row.id) = [] :=
    List.takeWhile_cons_of_neg (by simpa using h)
  rw [verifyEmails, hdrop, htake]
  rfl

theorem walk_verifyEmails : ∀ (n : ℕ) (w : Walk) (rows remote : List Row), Reads fetch w.reader rows →
    Remote fetchTarget w.remote w.remoteReader remote →
    2 * rows.length + remote.length + w.row.toList.length < n →
    w.run digest fetch fetchTarget n = some (verifyEmails digest (w.row.toList ++ rows) remote w.tally)
  | 0, _, _, _, _, _, hn => by omega
  | n + 1, ⟨reader, none, _, remoteReader, t⟩, [], [], hrows, hremote, hn => by
    have hnext : reader.next fetch = none := hrows
    obtain rfl := hremote
    simp only [Walk.run, Walk.step, hnext]
    rfl
  | n + 1, ⟨reader, none, _, remoteReader, t⟩, [], m :: remote, hrows, hremote, hn => by
    have hnext : reader.next fetch = none := hrows
    obtain ⟨rfl, hrest⟩ := hremote
    obtain ⟨hpull, hrow, hreader, htally⟩ := pull_spec (w := ⟨reader, none, some m, remoteReader, t⟩) hrest
    have hrun := walk_verifyEmails n { Walk.pull fetchTarget ⟨reader, none, some m, remoteReader, t⟩ with
      tally.targetCount := t.targetCount + 1 } [] remote (by rw [hreader]; exact hrows) hpull (by
        simp only [hrow, Option.toList_none, List.length_nil, List.length_cons] at hn ⊢
        omega)
    simp only [Walk.run, Walk.step, hnext]
    refine hrun.trans ?_
    simp only [hrow, htally, Option.toList_none, List.nil_append, verifyEmails, List.length_cons]
    rw [Nat.add_assoc, Nat.add_comm 1]
  | n + 1, ⟨reader, none, remote', remoteReader, t⟩, row :: rows, remote, ⟨reader', hnext, hrows⟩, hremote, hn => by
    have hrun := walk_verifyEmails n ⟨reader', some row, remote', remoteReader, t⟩ rows remote hrows hremote (by
      simp only [Option.toList_none, Option.toList_some, List.length_nil, List.length_cons] at hn ⊢
      omega)
    simp only [Walk.run, Walk.step, hnext]
    exact hrun
  | n + 1, ⟨reader, some row, _, remoteReader, t⟩, rows, [], hrows, hremote, hn => by
    obtain rfl := hremote
    simp only [Walk.run, Walk.step]
    rfl
  | n + 1, ⟨reader, some row, _, remoteReader, t⟩, rows, m :: remote, hrows, hremote, hn => by
    obtain ⟨rfl, hrest⟩ := hremote
    obtain ⟨hpull, hrow, hreader, htally⟩ := pull_spec (w := ⟨reader, some row, some m, remoteReader, t⟩) hrest
    simp only [Walk.run, Walk.step]
    by_cases hlt : m.id < row.id
    · have hrun := walk_verifyEmails n { Walk.pull fetchTarget ⟨reader, some row, some m, remoteReader, t⟩ with
        tally.targetCount := t.targetCount + 1 } rows remote (by rw [hreader]; exact hrows) hpull (by
          simp only [hrow, Option.toList_some, List.length_cons, List.length_nil] at hn ⊢
          omega)
      simp only [if_pos hlt]
      refine hrun.trans ?_
      simp only [hrow, htally, Option.toList_some, List.singleton_append, verifyEmails_skip hlt]
    · simp only [if_neg hlt, Option.toList_some, List.singleton_append, verifyEmails_meet hlt]
      by_cases hmeet : m.id = row.id ∧ digest row = digest m
      · have hrun := walk_verifyEmails n { Walk.pull fetchTarget ⟨reader, some row, some m, remoteReader, t⟩ with
          row := none
          tally.sourceCount := t.sourceCount + 1
          tally.targetCount := t.targetCount + 1
          tally.sourceDigest := t.sourceDigest ^^^ digest row } rows remote (by rw [hreader]; exact hrows) hpull (by
            simp only [Option.toList_some, Option.toList_none, List.length_cons, List.length_nil] at hn ⊢
            omega)
        simp only [if_pos hmeet]
        refine hrun.trans ?_
        simp only [htally, Option.toList_none, List.nil_append]
      · simp only [if_neg hmeet]

/-! ### What the merge finds -/

variable (digest) in
/-- Every row has a row of its id and its digest. -/
def Copied (rows remote : List Row) : Prop := ∀ row ∈ rows, ∃ m ∈ remote, m.id = row.id ∧ digest row = digest m

instance (rows remote : List Row) : Decidable (Copied digest rows remote) :=
  inferInstanceAs (Decidable (∀ row ∈ rows, ∃ m ∈ remote, m.id = row.id ∧ digest row = digest m))

/-- The tally of emails that are all found. -/
def Tally.found (digest : Row → BitVec 256) (rows remote : List Row) (t : Tally) : Tally :=
  { t with
    sourceCount := t.sourceCount + rows.length
    targetCount := t.targetCount + remote.length
    sourceDigest := rows.foldl (fun acc row => acc ^^^ digest row) t.sourceDigest }

/-- The row before all others decides nothing about them. -/
theorem copied_skip {m : Row} {rows remote : List Row} (h : ∀ row ∈ rows, m.id < row.id) :
    Copied digest rows (m :: remote) ↔ Copied digest rows remote := by
  refine forall₂_congr fun row hrow => ⟨?_, ?_⟩
  · rintro ⟨m', hm', hid, hdigest⟩
    rcases List.mem_cons.mp hm' with rfl | hm'
    · exact absurd hid (h row hrow).ne
    · exact ⟨m', hm', hid, hdigest⟩
  · rintro ⟨m', hm', hid, hdigest⟩
    exact ⟨m', List.mem_cons_of_mem _ hm', hid, hdigest⟩

/-- On readings in the order of the ids the merge finds every row or fails. -/
theorem verifyEmails_copied : ∀ {rows remote : List Row}, Ascending Row.id rows → Ascending Row.id remote →
    ∀ t, verifyEmails digest rows remote t =
      if Copied digest rows remote then some (t.found digest rows remote) else none
  | [], remote, _, _, t => by
    have hnone : Copied digest [] remote := fun row hrow => absurd hrow List.not_mem_nil
    rw [if_pos hnone]
    rfl
  | row :: rows, [], _, _, t => by
    rw [if_neg]
    · rfl
    · intro h
      obtain ⟨m, hm, -⟩ := h row List.mem_cons_self
      exact absurd hm List.not_mem_nil
  | row :: rows, m :: remote, hrows, hremote, t => by
    obtain ⟨hfirst, hrest⟩ := List.pairwise_cons.mp hrows
    obtain ⟨hmfirst, hmrest⟩ := List.pairwise_cons.mp hremote
    by_cases hlt : m.id < row.id
    · have hbefore : ∀ r ∈ row :: rows, m.id < r.id := by
        intro r hr
        rcases List.mem_cons.mp hr with rfl | hr
        · exact hlt
        · exact hlt.trans (hfirst r hr)
      rw [verifyEmails_skip hlt, verifyEmails_copied hrows hmrest]
      simp only [copied_skip hbefore, Tally.found, List.length_cons, Nat.add_assoc, Nat.add_comm 1]
    · rw [verifyEmails_meet hlt]
      by_cases hmeet : m.id = row.id ∧ digest row = digest m
      · have hcopied : Copied digest (row :: rows) (m :: remote) ↔ Copied digest rows remote := by
          rw [← copied_skip (m := m) fun r hr => hmeet.1 ▸ hfirst r hr]
          exact ⟨fun h r hr => h r (List.mem_cons_of_mem _ hr), fun h r hr => by
            rcases List.mem_cons.mp hr with rfl | hr
            · exact ⟨m, List.mem_cons_self, hmeet⟩
            · exact h r hr⟩
        rw [if_pos hmeet, verifyEmails_copied hrest hmrest]
        simp only [hcopied, Tally.found, List.length_cons, List.foldl_cons, Nat.add_assoc, Nat.add_comm 1]
      · rw [if_neg hmeet, if_neg]
        intro h
        obtain ⟨m', hm', hid, hdigest⟩ := h row List.mem_cons_self
        rcases List.mem_cons.mp hm' with rfl | hm'
        · exact hmeet ⟨hid, hdigest⟩
        · exact hlt (hid ▸ hmfirst m' hm')

/-! ### The folder catalogue -/

variable {digestFolder : FolderRow → BitVec 256}

theorem predicate_iff {f m : FolderRow} (h : m.mailAccountId = f.mailAccountId) :
    f.predicate m = true ↔ m.identity = f.identity := by
  unfold FolderRow.predicate FolderRow.identity
  rcases f.providerFolderId with _ | id <;> rcases m.providerFolderId with _ | id' <;> simp [h]

/-- Every folder has a folder of its identity and its digest. -/
def Catalogued (digestFolder : FolderRow → BitVec 256) (folders target : List FolderRow) : Prop :=
  ∀ f ∈ folders, ∃ m ∈ target, m.identity = f.identity ∧ digestFolder f = digestFolder m

instance (folders target : List FolderRow) : Decidable (Catalogued digestFolder folders target) :=
  inferInstanceAs (Decidable (∀ f ∈ folders, ∃ m ∈ target, m.identity = f.identity ∧ digestFolder f = digestFolder m))

variable {target chunk : List FolderRow}

/-- What the query of a chunk selects. -/
theorem found_iff (haccount : ∀ f ∈ chunk, f.mailAccountId = account) (hne : chunk ≠ []) (m : FolderRow) :
    ((chunk.head?.any fun f => m.mailAccountId = f.mailAccountId) && chunk.any fun f => f.predicate m) = true ↔
      m.identity ∈ chunk.map FolderRow.identity := by
  obtain ⟨first, rest, rfl⟩ := List.exists_cons_of_ne_nil hne
  have hfirst := haccount first List.mem_cons_self
  rw [Bool.and_eq_true, List.any_eq_true, List.mem_map]
  simp only [List.head?_cons, Option.any_some, decide_eq_true_eq, hfirst]
  constructor
  · rintro ⟨hm, f, hf, hpredicate⟩
    exact ⟨f, hf, ((predicate_iff (hm.trans (haccount f hf).symm)).mp hpredicate).symm⟩
  · rintro ⟨f, hf, hidentity⟩
    have hm : m.mailAccountId = f.mailAccountId := (congrArg Prod.fst hidentity).symm
    exact ⟨hm.trans (haccount f hf), f, hf, (predicate_iff hm).mpr hidentity.symm⟩

/-- A chunk of folders of one account passes when the target has each of them. -/
theorem verifyFolders_iff (htarget : (target.map FolderRow.identity).Nodup)
    (hchunk : (chunk.map FolderRow.identity).Nodup) (haccount : ∀ f ∈ chunk, f.mailAccountId = account)
    (hne : chunk ≠ []) : verifyFolders digestFolder target chunk = true ↔ Catalogued digestFolder chunk target := by
  have hfound := found_iff haccount hne
  unfold verifyFolders
  generalize hquery : (fun m : FolderRow => (chunk.head?.any fun f => m.mailAccountId = f.mailAccountId) &&
    chunk.any fun f => f.predicate m) = query
  have hquery (m : FolderRow) : query m = true ↔ m.identity ∈ chunk.map FolderRow.identity := by
    rw [← hquery]
    exact hfound m
  simp only [Bool.and_eq_true, decide_eq_true_eq, List.all_eq_true]
  constructor
  · rintro ⟨-, hall⟩ f hf
    have hf := hall f hf
    split at hf
    · rename_i m hm
      obtain ⟨hmem, hidentity⟩ := List.mem_filter.mp (hm ▸ List.mem_singleton_self m)
      exact ⟨m, (List.mem_filter.mp (List.mem_of_mem_take hmem)).1, of_decide_eq_true hidentity, of_decide_eq_true hf⟩
    · cases hf
  · intro hall
    have hnodup : ((target.filter query).map FolderRow.identity).Nodup :=
      htarget.sublist (List.filter_sublist.map _)
    -- the query finds the identities of the chunk, each once
    have hperm : ((target.filter query).map FolderRow.identity).Perm (chunk.map FolderRow.identity) := by
      refine (List.perm_ext_iff_of_nodup hnodup hchunk).mpr fun i => ⟨fun hi => ?_, fun hi => ?_⟩
      · obtain ⟨m, hm, rfl⟩ := List.mem_map.mp hi
        exact (hquery m).mp (List.mem_filter.mp hm).2
      · obtain ⟨f, hf, rfl⟩ := List.mem_map.mp hi
        obtain ⟨m, hm, hidentity, -⟩ := hall f hf
        refine hidentity ▸ List.mem_map_of_mem (List.mem_filter.mpr ⟨hm, (hquery m).mpr ?_⟩)
        rw [hidentity]
        exact hi
    have hlength : (target.filter query).length = chunk.length := by
      simpa only [List.length_map] using hperm.length_eq
    rw [List.take_of_length_le (by omega)]
    refine ⟨hlength, fun f hf => ?_⟩
    obtain ⟨m, hm, hidentity, hdigest⟩ := hall f hf
    have hmem : m ∈ target.filter query :=
      List.mem_filter.mpr ⟨hm, (hquery m).mpr (hidentity ▸ List.mem_map_of_mem hf)⟩
    rw [filter_eq_singleton hnodup hmem (decide_eq_true hidentity) fun m' _ hm' =>
      (of_decide_eq_true hm').trans hidentity.symm]
    exact decide_eq_true hdigest

theorem catalogued_append {a b : List FolderRow} :
    Catalogued digestFolder (a ++ b) target ↔ Catalogued digestFolder a target ∧ Catalogued digestFolder b target :=
  List.forall_mem_append

/-- A page is compared chunk by chunk. -/
theorem verifyFolderChunk_iff (htarget : (target.map FolderRow.identity).Nodup) :
    ∀ (n : ℕ) (page : List FolderRow), page.length ≤ n → (page.map FolderRow.identity).Nodup →
      (∀ f ∈ page, f.mailAccountId = account) →
        (verifyFolderChunk digestFolder target n page = true ↔ Catalogued digestFolder page target)
  | 0, page, hn, _, _ => by
    obtain rfl := List.length_eq_zero_iff.mp (Nat.le_zero.mp hn)
    exact iff_of_true rfl fun f hf => absurd hf List.not_mem_nil
  | n + 1, [], _, _, _ => iff_of_true rfl fun f hf => absurd hf List.not_mem_nil
  | n + 1, f :: page, hn, hpage, haccount => by
    have hsub := List.take_sublist 49 (f :: page)
    have hrest := verifyFolderChunk_iff htarget n ((f :: page).drop 49)
      (by rw [List.length_drop]; simp only [List.length_cons] at hn ⊢; omega)
      (hpage.sublist ((List.drop_sublist 49 _).map _)) fun g hg => haccount g (List.mem_of_mem_drop hg)
    have hfirst := @verifyFolders_iff _ digestFolder _ _ htarget (hpage.sublist (hsub.map _)) (fun g hg => haccount g (hsub.subset hg)) (List.cons_ne_nil _ _)
    rw [verifyFolderChunk, List.isEmpty_cons, Bool.false_or, Bool.and_eq_true, hrest, hfirst, ← catalogued_append,
      List.take_append_drop]

/-- The folders of the account in the order of their ids. -/
def foldersById (folders : List FolderRow) (account : JsString) : List FolderRow :=
  sortBy FolderRow.id (folders.filter fun f => f.mailAccountId = account)

theorem folderPage_eq {folders : List FolderRow} (hids : (folders.map FolderRow.id).Nodup) (cursor : Option ℤ) :
    folderPage folders account cursor size =
      ((foldersById folders account).filter (beyond FolderRow.id cursor)).take size := by
  rw [foldersById, ← sortBy_filter (hids.sublist (List.filter_sublist.map _)), List.filter_filter, folderPage,
    selectTop, sortBy]
  congr 2
  exact List.filter_congr fun f _ => Bool.and_comm _ _

/-- The loop over the pages finds every folder of the account or fails. -/
theorem walkFolders_catalogued {source : List FolderRow} (hids : (source.map FolderRow.id).Nodup)
    (hsource : (source.map FolderRow.identity).Nodup) (htarget : (target.map FolderRow.identity).Nodup)
    (hsize : 0 < size) : ∀ (n : ℕ) (cursor : Option ℤ) (digests : List (BitVec 256)),
    ((foldersById source account).filter (beyond FolderRow.id cursor)).length < n →
      walkFolders digestFolder source target account size n cursor digests =
        some (if Catalogued digestFolder ((foldersById source account).filter (beyond FolderRow.id cursor)) target then
          some (digests ++ ((foldersById source account).filter (beyond FolderRow.id cursor)).map digestFolder)
        else none)
  | 0, _, _, hn => by omega
  | n + 1, cursor, digests, hn => by
    have hascending : Ascending FolderRow.id (foldersById source account) :=
      sortBy_ascending (hids.sublist (List.filter_sublist.map _))
    have hpage := @folderPage_eq account size _ hids cursor
    have hmem : ∀ f ∈ (foldersById source account).filter (beyond FolderRow.id cursor),
        f.mailAccountId = account := fun f hf =>
      of_decide_eq_true (List.mem_filter.mp (mem_sortBy.mp (List.mem_filter.mp hf).1)).2
    have hidentities : (((foldersById source account).filter (beyond FolderRow.id cursor)).map
        FolderRow.identity).Nodup := by
      refine List.Nodup.sublist (List.filter_sublist.map _) ?_
      refine ((@sortBy_perm _ _ _ FolderRow.id _).map FolderRow.identity).nodup_iff.mpr ?_
      exact hsource.sublist (List.filter_sublist.map _)
    rw [walkFolders]
    rcases hfirst : folderPage source account cursor size with _ | ⟨f, rest⟩
    · rw [hfirst] at hpage
      have hnil := List.take_eq_nil_iff.mp hpage.symm
      have hnone : Catalogued digestFolder [] target := fun f hf => absurd hf List.not_mem_nil
      rw [hnil.resolve_left (by omega), if_pos hnone]
      simp only [List.map_nil, List.append_nil]
    · rw [hfirst] at hpage
      have hcut := hascending.page (n := size) cursor (by
        rw [← hpage]
        exact List.getLast?_eq_getLast_of_ne_nil (List.cons_ne_nil f rest))
      rw [← hpage] at hcut
      have hsub : (f :: rest).Sublist ((foldersById source account).filter (beyond FolderRow.id cursor)) :=
        hpage ▸ List.take_sublist _ _
      have hchunk := @verifyFolderChunk_iff _ digestFolder _ htarget (f :: rest).length (f :: rest) le_rfl (hidentities.sublist (hsub.map _)) fun g hg => hmem g (hsub.subset hg)
      have hrest := walkFolders_catalogued hids hsource htarget hsize n
        (some ((f :: rest).getLast (List.cons_ne_nil _ _)).id) (digests ++ (f :: rest).map digestFolder) (by
          have hlength := congrArg List.length hcut
          rw [List.length_append, List.length_cons] at hlength
          change ((foldersById source account).filter fun g =>
            ((f :: rest).getLast (List.cons_ne_nil _ _)).id < g.id).length < n
          omega)
      have hbeyond : ((foldersById source account).filter
          (beyond FolderRow.id (some ((f :: rest).getLast (List.cons_ne_nil _ _)).id))) =
          (foldersById source account).filter fun g => ((f :: rest).getLast (List.cons_ne_nil _ _)).id < g.id := rfl
      simp only [hchunk, hrest, hcut, hbeyond, catalogued_append]
      by_cases hhere : Catalogued digestFolder (f :: rest) target
      · simp only [hhere, if_true, true_and, List.map_append, List.append_assoc]
      · simp only [hhere, if_false, false_and]

/-! ### The verification -/

/-- The keys of the tables, and that no id in scope is empty. -/
structure Content.Keyed (content : Content) (account : JsString) : Prop where
  ids : (content.emails.map (·.id)).Nodup
  named : ∀ row ∈ content.emails, emailScope account row = true → row.id ≠ []
  folderIds : (content.folders.map FolderRow.id).Nodup
  identities : (content.folders.map FolderRow.identity).Nodup

variable {source target : Content}

/-- With enough steps `verify` ends, and page boundaries leave no trace. -/
theorem runVerify_eq (hsource : source.Keyed account) (htarget : target.Keyed account)
    (hagree : Agrees before (source.emails.map (·.id) ++ target.emails.map (·.id))) (hsize : 0 < size) :
    ∃ n₀, ∀ n, n₀ ≤ n → runVerify digest digestFolder before source target account size n =
      some (verify digest source.emails target.emails account
        (if Catalogued digestFolder (foldersById source.folders account) target.folders then
          some ((foldersById source.folders account).map digestFolder) else none)) := by
  have hagreeS : Agrees before (source.emails.map (·.id)) := fun a ha b hb =>
    hagree a (List.mem_append_left _ ha) b (List.mem_append_left _ hb)
  have hagreeT : Agrees before (target.emails.map (·.id)) := fun a ha b hb =>
    hagree a (List.mem_append_right _ ha) b (List.mem_append_right _ hb)
  have hreadS := @emailsById_reads _ _ account _ hagreeS hsource.ids hsource.named hsize
  have hreadT := @emailsById_reads _ _ account _ hagreeT htarget.ids htarget.named hsize
  refine ⟨2 * (emailsById source.emails account).length + (emailsById target.emails account).length +
    (foldersById source.folders account).length + 1, fun n hn => ?_⟩
  obtain ⟨hremote, hrow, hreader, htally⟩ :=
    pull_spec (w := ⟨.start, none, none, .start, ⟨0, 0, 0, 0⟩⟩) hreadT
  have hwalk := @walk_verifyEmails digest _ _ n _ _ _ (by rw [hreader]; exact hreadS) hremote (by
    rw [hrow, Option.toList_none, List.length_nil]
    omega)
  have hall : (foldersById source.folders account).filter (beyond FolderRow.id none) =
      foldersById source.folders account := List.filter_eq_self.mpr fun _ _ => rfl
  have hfolders := @walkFolders_catalogued account _ digestFolder _ _
    hsource.folderIds hsource.identities htarget.identities hsize n none [] (by rw [hall]; omega)
  rw [hall] at hfolders
  simp only [runVerify, hwalk, hrow, htally, Option.toList_none, List.nil_append, hfolders, verify]
  rcases verifyEmails digest (emailsById source.emails account) (emailsById target.emails account) ⟨0, 0, 0, 0⟩ with
    _ | t
  · rfl
  · rw [Option.bind_some]
    rfl

/-- The exclusive or of digests. -/
def xorAll (digests : List (BitVec 256)) : BitVec 256 := digests.foldl (· ^^^ ·) 0

theorem xorAll_perm {a b : List (BitVec 256)} (h : a.Perm b) : xorAll a = xorAll b :=
  h.foldl_eq' (fun x _ y _ z => by rw [BitVec.xor_assoc, BitVec.xor_assoc, BitVec.xor_comm x]) 0

/-- The digests that go into a tally: of the source emails in scope and of the account's folders. -/
def digestsOf (digest : Row → BitVec 256) (digestFolder : FolderRow → BitVec 256) (source : Content)
    (account : JsString) : List (BitVec 256) :=
  (source.emails.filter (emailScope account)).map digest ++
    (source.folders.filter fun f => f.mailAccountId = account).map digestFolder

/-- Where the digest keeps rows apart, a row is copied when the target has it. -/
theorem copied_iff (hdigest : ∀ a ∈ source.emails, ∀ b ∈ target.emails, digest a = digest b → a = b) :
    Copied digest (emailsById source.emails account) (emailsById target.emails account) ↔
      ∀ row ∈ source.emails, emailScope account row = true → row ∈ target.emails := by
  constructor
  · intro h row hrow hscope
    obtain ⟨m, hm, -, heq⟩ := h row (mem_emailsById.mpr ⟨hrow, hscope⟩)
    have hm := (mem_emailsById.mp hm).1
    exact hdigest row hrow m hm heq ▸ hm
  · intro h row hrow
    obtain ⟨hmem, hscope⟩ := mem_emailsById.mp hrow
    exact ⟨row, mem_emailsById.mpr ⟨h row hmem hscope, hscope⟩, rfl, rfl⟩

/-- `verify` ends; it succeeds when the target has every source row in scope, with all its values, and
    every folder of the account, and only then. The counts are the numbers of rows, and the digest is that
    of the rows in any order. -/
theorem verify_exact (hsource : source.Keyed account) (htarget : target.Keyed account)
    (hagree : Agrees before (source.emails.map (·.id) ++ target.emails.map (·.id)))
    (hdigest : ∀ a ∈ source.emails, ∀ b ∈ target.emails, digest a = digest b → a = b) (hsize : 0 < size) :
    ∃ n₀ result, (∀ n, n₀ ≤ n → runVerify digest digestFolder before source target account size n = some result) ∧
      (result.isSome = true ↔ (∀ row ∈ source.emails, emailScope account row = true → row ∈ target.emails) ∧
        Catalogued digestFolder (source.folders.filter fun f => f.mailAccountId = account) target.folders) ∧
      ∀ t, result = some t →
        t.sourceCount = (source.emails.filter (emailScope account)).length ∧
        t.targetCount = (target.emails.filter (emailScope account)).length ∧
        t.folderCount = (source.folders.filter fun f => f.mailAccountId = account).length ∧
        ∀ digests, digests.Perm (digestsOf digest digestFolder source account) → t.sourceDigest = xorAll digests := by
  obtain ⟨n₀, hrun⟩ := @runVerify_eq digest _ _ _ digestFolder _ _ hsource htarget hagree hsize
  have hfolders : (foldersById source.folders account).Perm (source.folders.filter fun f => f.mailAccountId = account) :=
    sortBy_perm
  have hcatalogued : Catalogued digestFolder (foldersById source.folders account) target.folders ↔
      Catalogued digestFolder (source.folders.filter fun f => f.mailAccountId = account) target.folders :=
    ⟨fun h f hf => h f (hfolders.mem_iff.mpr hf), fun h f hf => h f (hfolders.mem_iff.mp hf)⟩
  have hemails : (emailsById source.emails account).Perm (source.emails.filter (emailScope account)) := by
    rw [emailsById_eq]
    exact sortBy_perm
  have hremotes : (emailsById target.emails account).Perm (target.emails.filter (emailScope account)) := by
    rw [emailsById_eq]
    exact sortBy_perm
  refine ⟨n₀, _, hrun, ?_, ?_⟩
  · rw [verify, verifyEmails_copied (emailsById_ascending hsource.ids) (emailsById_ascending htarget.ids),
      ← @copied_iff _ account _ _ hdigest, ← hcatalogued]
    by_cases hcopied : Copied digest (emailsById source.emails account) (emailsById target.emails account)
    · by_cases hcat : Catalogued digestFolder (foldersById source.folders account) target.folders
      · simp [hcopied, hcat]
      · simp [hcopied, hcat]
    · simp [hcopied]
  · intro t ht
    rw [verify, verifyEmails_copied (emailsById_ascending hsource.ids) (emailsById_ascending htarget.ids)] at ht
    obtain ⟨found, hfound, ht⟩ := Option.bind_eq_some_iff.mp ht
    obtain ⟨ds, hds, rfl⟩ := Option.map_eq_some_iff.mp ht
    split at hfound
    · split at hds
      · cases hfound
        cases hds
        refine ⟨?_, ?_, ?_, fun digests hperm => ?_⟩
        · simp only [Tally.found, Nat.zero_add, hemails.length_eq]
        · simp only [Tally.found, Nat.zero_add, hremotes.length_eq]
        · simp only [List.length_map, hfolders.length_eq]
        · have hboth : digests.Perm ((emailsById source.emails account).map digest ++
              (foldersById source.folders account).map digestFolder) :=
            hperm.trans ((hemails.map digest).append (hfolders.map digestFolder)).symm
          rw [xorAll_perm hboth]
          simp only [xorAll, List.foldl_append, List.foldl_map, Tally.found]
      · cases hds
    · cases hfound

/-- A mail and a folder of account `a`. -/
def movedMail : Row := ⟨js "m", js "imap", js "a", 5, []⟩
def inbox : FolderRow := ⟨1, js "a", js "gmail", none, js "INBOX", []⟩

/-- A digest that keeps the mail apart from others. -/
def demoDigest (row : Row) : BitVec 256 := if row = movedMail then 1 else 2

/-- A copy with a row of its own beside the mail. -/
theorem verify_exact_copied : ∃ n₀ result, (∀ n, n₀ ≤ n → runVerify demoDigest (fun _ => 4) (fun a b => a < b)
    ⟨[movedMail], [inbox]⟩ ⟨[{ movedMail with id := js "k" }, movedMail], [inbox]⟩ (js "a") 1 n = some result) ∧
      result.isSome = true := by
  have hagree : Agrees (fun a b => a < b) [js "m", js "k", js "m"] := fun a _ b _ => decide_eq_true_iff
  obtain ⟨n₀, result, hrun, hiff, -⟩ := @verify_exact demoDigest _ (js "a") 1 (fun _ => 4) ⟨[movedMail], [inbox]⟩ ⟨[{ movedMail with id := js "k" }, movedMail], [inbox]⟩ ⟨by decide, by decide, by decide, by decide⟩ ⟨by decide, by decide, by decide, by decide⟩ hagree (by decide) (by decide)
  exact ⟨n₀, result, hrun, hiff.mpr ⟨by decide, by decide⟩⟩

/-- No mail in scope is missing, but a folder is. -/
theorem missing_folder_fails : (∀ row ∈ ([] : List Row), emailScope (js "a") row = true → row ∈ ([] : List Row)) ∧
    ∀ n, runVerify demoDigest (fun _ => 4) (fun a b => a < b) ⟨[], [inbox]⟩ ⟨[], []⟩ (js "a") 15 (n + 2) =
      some none :=
  ⟨by decide, fun _ => rfl⟩

end OneMail.Backfill
