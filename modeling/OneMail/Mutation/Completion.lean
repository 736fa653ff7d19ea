import OneMail.Mutation.Mailbox

/-! The report of a move against the syncs of its folders.

    While the job is open, a row of `emails` has a name that the job's move gave only if ingest has stored it
    (`Sound.fresh`), and a row that ingest has stored stays beside the job's own. So the report commits, and
    leaves one row with the name, exactly when ingest has not stored the message under its new name first
    (`move_completes`). -/

namespace OneMail.Mutation
open JsString Table Interleave

variable {account : MailAccount} {message : ℕ} {job row : JobRow} {s s' : Mail} {τ : List EmailRow} {l : Location}
  {r : Report} {newer : Bool} {now : ℕ} {emails : List EmailRow} {p : MoveProjection}

/-! ### The job -/

/-- A row of the job, with the key and the identity it was queued with. -/
structure IsJob (job j : JobRow) : Prop where
  key : SameKey job j
  identity : j.identity = job.identity

/-- No report of the job rewrites the job itself: only later rows are relocated. -/
theorem IsJob.moved {t : List JobRow} {c : Call} {j j' : JobRow} (hj : IsJob job j) (h : JobMoves t c j j')
    (hall : ∀ k ∈ t, k.id = job.id → IsJob job k)
    (hc : ∀ r row newer now, c = .writing r row newer now → row.id = job.id) : IsJob job j' := by
  induction h with
  | refl => exact hj
  | @tail k k' _ hm ih =>
    refine ⟨ih.key.trans hm.key, ?_⟩
    rcases hm.identity with hsame | ⟨r, row, newer, now, hw, -, -, -, hb⟩
    · exact hsame.trans ih.identity
    · simp only [pendingBehind, afterRow, Bool.and_eq_true, List.any_eq_true, decide_eq_true_eq] at hb
      obtain ⟨-, x, hx, hid, hlt⟩ := hb
      have hxjob := hall x hx (hid.trans (hc r row newer now hw))
      rw [hxjob.key.rowid, ih.key.rowid] at hlt
      omega

/-- Some row of the job is not terminal. -/
def Open (job : JobRow) (jobs : List JobRow) : Prop := ∃ j ∈ jobs, j.id = job.id ∧ j.status.terminal = false

theorem leaseGuard_open (h : leaseGuard r row now s.db.jobs = true) (hid : row.id = job.id) : Open job s.db.jobs := by
  obtain ⟨j, hj, hl⟩ := List.any_eq_true.mp h
  obtain ⟨hjid, hprocessing, -⟩ := holdsLease_iff.mp hl
  exact ⟨j, hj, hjid.trans hid, by rw [hprocessing]; rfl⟩

/-- What the statements of one call leave of the job table. -/
structure JobsMoved (job : JobRow) (t u : List JobRow) : Prop where
  ids : (u.map (·.id)).Nodup
  rows : ∀ j ∈ u, j.id = job.id → IsJob job j
  wasOpen : Open job u → Open job t

theorem jobs_moved {t u : List JobRow} {c : Call} (hids : (t.map (·.id)).Nodup)
    (hall : ∀ k ∈ t, k.id = job.id → IsJob job k)
    (hc : ∀ r row newer now, c = .writing r row newer now → row.id = job.id)
    (h : List.Forall₂ (JobMoves t c) t u) : JobsMoved job t u where
  ids := by
    rw [Forall₂.map_eq (·.id) (fun _ _ hm => (JobMoves.key hm).id) h]
    exact hids
  rows j' hj' hid := by
    obtain ⟨j, hj, hm⟩ := Forall₂.prev h hj'
    exact (hall j hj ((JobMoves.key hm).id.symm.trans hid)).moved hm hall hc
  wasOpen := by
    rintro ⟨j', hj', hid, hlive⟩
    obtain ⟨j, hj, hm⟩ := Forall₂.prev h hj'
    exact ⟨j, hj, (JobMoves.key hm).id.symm.trans hid, JobMoves.live hm hlive⟩

/-! ### The report -/

/-- What an IMAP job accepts, and what it makes of it. -/
theorem normalizedMoveProjection_imap (himap : row.provider = .imap) :
    normalizedMoveProjection row (some (imapMoveProjection account l)) = some p ↔
      truthy row.targetFolder = true ∧ boundedText (some l.folder) 1024 = row.targetFolder ∧
        boundedText (some l.folder) 1024 = some p.sourceFolder ∧
        boundedText (some (makeImapUid account l)) 4096 = some p.sourceKey ∧ some p.sourceKey ≠ row.sourceKey ∧
        p.sourceFolderId = none ∧ p.providerMessageId = row.providerMessageId := by
  unfold normalizedMoveProjection imapMoveProjection
  simp only [Option.bind_some]
  rcases hfolder : boundedText (some l.folder) 1024 with _ | folder
  · simp
  rcases hkey : boundedText (some (makeImapUid account l)) 4096 with _ | key
  · simp
  simp only [himap]
  by_cases htarget : truthy row.targetFolder = true ∧ some folder = row.targetFolder
  · rw [if_neg (by simp [htarget.1, htarget.2])]
    by_cases hsame : some key = row.sourceKey
    · rw [if_pos hsame]
      simp only [reduceCtorEq, false_iff]
      rintro ⟨-, -, -, hk, hne, -⟩
      exact hne (hk ▸ hsame)
    · rw [if_neg hsame]
      obtain ⟨pf, pid, pk, pm⟩ := p
      simp only [Option.some.injEq, MoveProjection.mk.injEq]
      constructor
      · rintro ⟨rfl, rfl, rfl, rfl⟩
        exact ⟨htarget.1, htarget.2, rfl, rfl, hsame, rfl, rfl⟩
      · rintro ⟨-, -, rfl, rfl, -, rfl, rfl⟩
        exact ⟨rfl, rfl, rfl, rfl⟩
  · rw [if_pos (by tauto)]
    simp only [reduceCtorEq, false_iff]
    exact fun h => htarget ⟨h.1, h.2.1⟩

/-- The report of a move writes `emails` only when it succeeds under its lease. -/
theorem reportWrite_emails (hop : row.operation = .move) (r : Report) (newer : Bool) (now : ℕ) :
    (reportWrite s.db r row newer now).1.emails = s.db.emails ∨
      r.status = .succeeded ∧ leaseGuard r row now s.db.jobs = true ∧
        ∃ p, normalizedMoveProjection row r.projection = some p ∧
          (reportWrite s.db r row newer now).1.emails =
            updateWhere (·.id = row.emailId) (relocateEmail p now) s.db.emails := by
  unfold reportWrite
  split
  · unfold beforeClose
    rcases hstatus : r.status with _ | _ | _ | _ <;> simp only [hop]
    · rcases hp : normalizedMoveProjection row r.projection with _ | p
      · exact .inl rfl
      · simp only
        by_cases hguard : leaseGuard r row now s.db.jobs = true
        · simp only [hguard, if_true]
          exact .inr ⟨trivial, trivial, p, rfl, rfl⟩
        · rw [if_neg hguard]
          exact .inl rfl
    all_goals exact .inl trivial
  · exact .inl rfl

/-- A succeeded report that is accepted under its lease closes the row that holds it. -/
theorem reportWrite_closes (ha : acceptsProjection r row = true) (hr : r.status = .succeeded)
    (newer : Bool) (hguard : leaseGuard r row now s.db.jobs = true) :
    ∃ j ∈ (reportWrite s.db r row newer now).1.jobs, j.id = row.id ∧ j.status = .succeeded := by
  obtain ⟨h, hh, hl⟩ := List.any_eq_true.mp hguard
  obtain ⟨hid, hprocessing, -⟩ := holdsLease_iff.mp hl
  rw [reportWrite_accepted newer now ha]
  refine ⟨reportOutcome r row newer now h, ?_, ?_, ?_⟩
  · exact mem_updateWhere.mpr ⟨h, mem_beforeClose hh hprocessing, by rw [if_pos hl]⟩
  · exact (reportOutcome_key r row newer now h).id.trans hid
  · rw [reportOutcome, hr]
    rfl

/-! ### The unique indexes -/

theorem relocate_apart {e e' : EmailRow} (h : e.conflicts e' = false) (hfree : e'.carries p.sourceKey = false)
    (hmessage : e.providerMessageId = p.providerMessageId) (now : ℕ) :
    (relocateEmail p now e).conflicts e' = false := by
  obtain ⟨hid, huid, -, hmess⟩ := not_conflicts h
  simp only [EmailRow.carries, Bool.or_eq_false_iff, decide_eq_false_iff_not] at hfree
  have hkey : sameKey (some p.sourceKey) e'.sourceKey = false := by
    simp [sameKey, Ne.symm hfree.2]
  have hnew : sameKey (some p.sourceKey) e'.imapUid = false := by
    simp [sameKey, Ne.symm hfree.1]
  have huid' : sameKey (relocateEmail p now e).imapUid e'.imapUid = false := by
    simp only [relocateEmail]
    split
    · exact hnew
    · exact huid
  simp only [EmailRow.conflicts, huid', Bool.or_false]
  simp only [relocateEmail, hkey, ← hmessage, hmess, hid, Bool.or_false, decide_false]

/-- Relocating a row keeps the indexes if no other row has the new name. -/
theorem Unique.relocate {emailId : JsString} (h : Unique emails)
    (hfree : ∀ e ∈ emails, e.id ≠ emailId → e.carries p.sourceKey = false)
    (hmessage : ∀ e ∈ emails, e.id = emailId → e.providerMessageId = p.providerMessageId) (now : ℕ) :
    Unique (updateWhere (·.id = emailId) (relocateEmail p now) emails) := by
  unfold Unique updateWhere
  rw [List.pairwise_map]
  refine List.Pairwise.imp_of_mem ?_ h
  intro e e' he he' hapart
  have hne := (not_conflicts hapart).1
  by_cases hid : e.id = emailId
  · have hid' : e'.id ≠ emailId := fun heq => hne (hid.trans heq.symm)
    rw [if_pos (decide_eq_true hid), if_neg (by simp [hid'])]
    exact relocate_apart hapart (hfree e' he' hid') (hmessage e he hid) now
  · by_cases hid' : e'.id = emailId
    · rw [if_neg (by simp [hid]), if_pos (decide_eq_true hid'), conflicts_comm]
      rw [conflicts_comm] at hapart
      exact relocate_apart hapart (hfree e he hid) (hmessage e' he' hid') now
    · rw [if_neg (by simp [hid]), if_neg (by simp [hid'])]
      exact hapart

/-! ### The invariant -/

/-- The row has one name, in both columns. -/
def Named (account : MailAccount) (l : Location) (row : EmailRow) : Prop :=
  row.accountId = some account.id ∧ row.imapUid = some (makeImapUid account l) ∧
    row.sourceKey = some (makeImapUid account l)

theorem Named.carries {e : EmailRow} (h : Named account l e) : e.carries (makeImapUid account l) = true := by
  simp [EmailRow.carries, h.2.1]

theorem Named.eq {e : EmailRow} {l' : Location} (h : Named account l e)
    (hcarries : e.carries (makeImapUid account l') = true) : l = l' := by
  simp only [EmailRow.carries, h.2.1, h.2.2, Bool.or_self, decide_eq_true_eq, Option.some.injEq] at hcarries
  exact makeImapUid_injective hcarries

/-- Rows and names, whatever the job has come to. `kept` and `fresh` are the two halves of the argument. -/
structure Sound (account : MailAccount) (job : JobRow) (s : Mail) (τ : List EmailRow) : Prop where
  move : job.operation = .move
  imap : job.provider = .imap
  unique : Unique s.db.emails
  jobs : JobsMoved job s.db.jobs s.db.jobs
  row : ∃ e ∈ s.db.emails, e.id = job.emailId ∧ e.accountId = some account.id
  message : ∀ e ∈ s.db.emails, e.id = job.emailId → e.providerMessageId = job.providerMessageId
  placed : ∀ l ∈ s.placed, l ∈ s.mailbox.assigned ∧ job.sourceKey ≠ some (makeImapUid account l)
  source : ∀ l, job.sourceKey = some (makeImapUid account l) → l ∈ s.mailbox.assigned
  stored : ∀ e ∈ τ, ∃ l ∈ s.mailbox.assigned, Named account l e
  kept : ∀ e ∈ τ, ∃ e' ∈ s.db.emails, EmailRow.SameKeys e e' ∧ e'.id ≠ job.emailId
  names : Open job s.db.jobs → ∀ e ∈ s.db.emails, ∀ l, e.carries (makeImapUid account l) = true →
    l ∈ s.mailbox.assigned
  fresh : Open job s.db.jobs → ∀ e ∈ s.db.emails, ∀ l ∈ s.placed, e.carries (makeImapUid account l) = true →
    Stored (makeImapUid account l) τ

/-- What a call of these runs holds. -/
def Call.OfJob (account : MailAccount) (job : JobRow) (placed : List Location) : Call → Prop
  | .loaded _ | .stamped .. | .inserted .. | .superseded .. => False
  | .reporting r _ => r.Truthful account job placed
  | .fetched r row | .compared r row _ | .writing r row _ _ => r.Truthful account job placed ∧ IsJob job row
  | _ => True

def MailCall.Sound (account : MailAccount) (job : JobRow) (s : Mail) : MailCall → Prop
  | .call c => c.OfJob account job s.placed
  | .posting uploads => ∀ e ∈ uploads, ∃ l ∈ s.mailbox.assigned, e.Names account l
  | .inserting rows _ _ => ∀ e ∈ rows, ∃ l ∈ s.mailbox.assigned, Named account l e
  | .refreshing _ _ => True

/-- Locations are only ever added. -/
structure Grows (s s' : Mail) : Prop where
  placed : s.placed ⊆ s'.placed
  assigned : s.mailbox.assigned ⊆ s'.mailbox.assigned

theorem Report.Truthful.grow {placed placed' : List Location} (h : r.Truthful account job placed)
    (hsub : placed ⊆ placed') : r.Truthful account job placed' := by
  refine ⟨h.1, fun hr => ?_⟩
  obtain ⟨l, hl, hp⟩ := h.2 hr
  exact ⟨l, hsub hl, hp⟩

theorem MailCall.Sound.grow {c : MailCall} (hg : Grows s s') (h : c.Sound account job s) : c.Sound account job s' := by
  cases c with
  | call c =>
    cases c with
    | reporting => exact Report.Truthful.grow h hg.placed
    | fetched | compared | writing => exact ⟨h.1.grow hg.placed, h.2⟩
    | _ => exact h
  | posting uploads =>
    intro e he
    obtain ⟨l, hl, hnames⟩ := h e he
    exact ⟨l, hg.assigned hl, hnames⟩
  | inserting rows =>
    intro e he
    obtain ⟨l, hl, hnamed⟩ := h e he
    exact ⟨l, hg.assigned hl, hnamed⟩
  | refreshing => exact h

theorem sound_init (h : Mail.Queued account job s) : Sound account job s [] := by
  obtain ⟨e, he, hid, haccount, hidentity⟩ := h.row
  have hrow : ∀ e' ∈ s.db.emails, e'.id = job.emailId → e' = e := fun e' he' hid' =>
    eq_of_key h.unique.ids he' he (hid'.trans hid.symm)
  simp only [EmailRow.identity, JobRow.identity, Identity.mk.injEq] at hidentity
  have hjob : ∀ j ∈ s.db.jobs, j.id = job.id → IsJob job j := by
    intro j hj hjid
    obtain rfl := eq_of_key h.ids hj h.queued hjid
    exact ⟨.refl j, rfl⟩
  refine ⟨h.move, h.imap, h.unique, ⟨h.ids, hjob, id⟩, ⟨e, he, hid, haccount⟩, fun e' he' hid' => ?_, fun l hl => ?_, fun l hl => ?_,
    fun e he => ?_, fun e he => ?_, fun _ => h.names, fun _ e _ l hl => ?_⟩
  · rw [hrow e' he' hid']
    exact hidentity.2.2.2
  · rw [h.placed] at hl
    cases hl
  · -- the job's source key is one of the two names of its row
    refine h.names e he l ?_
    have hkey := hidentity.2.2.1.trans hl
    simp only [EmailRow.carries, Bool.or_eq_true, decide_eq_true_eq]
    unfold orElse at hkey
    split at hkey
    · exact .inr hkey
    · exact .inl hkey
  · cases he
  · cases he
  · rw [h.placed] at hl
    cases hl

/-- A step that keeps the unique columns of every row. -/
theorem Sound.keep (h : Sound account job s τ) (hemails : List.Forall₂ EmailRow.SameKeys s.db.emails s'.db.emails)
    (hjobs : JobsMoved job s.db.jobs s'.db.jobs) (hmailbox : s'.mailbox = s.mailbox) (hplaced : s'.placed = s.placed) :
    Sound account job s' τ where
  move := h.move
  imap := h.imap
  unique := h.unique.moved hemails
  jobs := ⟨hjobs.ids, hjobs.rows, id⟩
  row := by
    obtain ⟨e, he, hid, haccount⟩ := h.row
    obtain ⟨e', he', hkeys⟩ := Forall₂.next hemails he
    exact ⟨e', he', hkeys.id.trans hid, hkeys.accountId.trans haccount⟩
  message e' he' hid := by
    obtain ⟨e, he, hkeys⟩ := Forall₂.prev hemails he'
    exact hkeys.providerMessageId.trans (h.message e he (hkeys.id.symm.trans hid))
  placed := by
    rw [hplaced, hmailbox]
    exact h.placed
  source := by
    rw [hmailbox]
    exact h.source
  stored := by
    rw [hmailbox]
    exact h.stored
  kept e he := by
    obtain ⟨e', he', hkeys, hne⟩ := h.kept e he
    obtain ⟨e'', he'', hkeys'⟩ := Forall₂.next hemails he'
    exact ⟨e'', he'', hkeys.trans hkeys', fun heq => hne (hkeys'.id.symm.trans heq)⟩
  names hopen e' he' l hl := by
    obtain ⟨e, he, hkeys⟩ := Forall₂.prev hemails he'
    rw [hmailbox]
    exact h.names (hjobs.wasOpen hopen) e he l ((hkeys.carries _).symm.trans hl)
  fresh hopen e' he' l hl hcarries := by
    obtain ⟨e, he, hkeys⟩ := Forall₂.prev hemails he'
    rw [hplaced] at hl
    exact h.fresh (hjobs.wasOpen hopen) e he l hl ((hkeys.carries _).symm.trans hcarries)

theorem forall₂_sameKeys (emails : List EmailRow) : List.Forall₂ EmailRow.SameKeys emails emails :=
  forall₂_refl_of fun e _ => EmailRow.SameKeys.refl e

/-- The server gives a message a location it has never given out; `moved` are the ones the job's move gave. -/
theorem Sound.put (h : Sound account job s τ) (m : ℕ) (hnew : l ∉ s.mailbox.assigned) {placed : List Location}
    (hplaced : placed = s.placed ∨ placed = l :: s.placed) :
    Sound account job { s with mailbox := s.mailbox.put m l, placed := placed } τ where
  move := h.move
  imap := h.imap
  unique := h.unique
  jobs := h.jobs
  row := h.row
  message := h.message
  placed l' hl' := by
    have hold : l' ∈ s.placed → l' ∈ (s.mailbox.put m l).assigned ∧ job.sourceKey ≠ some (makeImapUid account l') :=
      fun hmem => ⟨List.mem_cons_of_mem _ (h.placed l' hmem).1, (h.placed l' hmem).2⟩
    rcases hplaced with rfl | rfl
    · exact hold hl'
    · rcases List.mem_cons.mp hl' with rfl | hmem
      · exact ⟨List.mem_cons_self, fun hkey => hnew (h.source l' hkey)⟩
      · exact hold hmem
  source l' hl' := List.mem_cons_of_mem _ (h.source l' hl')
  stored e he := by
    obtain ⟨l', hl', hnamed⟩ := h.stored e he
    exact ⟨l', List.mem_cons_of_mem _ hl', hnamed⟩
  kept := h.kept
  names hopen e he l' hl' := List.mem_cons_of_mem _ (h.names hopen e he l' hl')
  fresh hopen e he l' hl' hcarries := by
    have hold : l' ∈ s.placed → Stored (makeImapUid account l') τ := fun hmem => h.fresh hopen e he l' hmem hcarries
    rcases hplaced with rfl | rfl
    · exact hold hl'
    · rcases List.mem_cons.mp hl' with rfl | hmem
      · exact absurd (h.names hopen e he l' hcarries) hnew
      · exact hold hmem

/-- A batch of INSERTs: what carries a new name afterwards has been stored. -/
theorem Sound.insert (h : Sound account job s τ) {rows : List EmailRow}
    (hrows : ∀ e ∈ rows, ∃ l ∈ s.mailbox.assigned, Named account l e) :
    Sound account job { s with db := { s.db with emails := (insertBatch s.db.emails rows).emails } }
      ((insertBatch s.db.emails rows).stored ++ τ) := by
  have hmem : ∀ e, e ∈ (insertBatch s.db.emails rows).emails ↔
      e ∈ s.db.emails ∨ e ∈ (insertBatch s.db.emails rows).stored := by
    intro e
    rw [insertBatch_emails, List.mem_append]
  have hother : ∀ e ∈ (insertBatch s.db.emails rows).stored, e.id ≠ job.emailId := by
    intro e he hid
    obtain ⟨row, hrow, hrowid, -⟩ := h.row
    exact (not_conflicts (stored_apart h.unique he hrow)).1 (hrowid.trans hid.symm)
  have hnamed := fun e he => hrows e (stored_subset rows s.db.emails he)
  have later : ∀ {key}, Stored key τ → Stored key ((insertBatch s.db.emails rows).stored ++ τ) :=
    fun ⟨e, he, hcarries⟩ => ⟨e, List.mem_append_right _ he, hcarries⟩
  obtain ⟨row, hrow, hrowid, haccount⟩ := h.row
  refine ⟨h.move, h.imap, insertBatch_unique h.unique, h.jobs, ⟨row, (hmem row).mpr (.inl hrow), hrowid, haccount⟩, fun e he hid => ?_,
    h.placed, h.source, fun e he => ?_, fun e he => ?_, fun hopen e he l hl => ?_, fun hopen e he l hl hcarries => ?_⟩
  · rcases (hmem e).mp he with hold | hnew
    · exact h.message e hold hid
    · exact absurd hid (hother e hnew)
  · rcases List.mem_append.mp he with hnew | hold
    · exact hnamed e hnew
    · exact h.stored e hold
  · rcases List.mem_append.mp he with hnew | hold
    · exact ⟨e, (hmem e).mpr (.inr hnew), EmailRow.SameKeys.refl e, hother e hnew⟩
    · obtain ⟨e', he', hkeys, hne⟩ := h.kept e hold
      exact ⟨e', (hmem e').mpr (.inl he'), hkeys, hne⟩
  · rcases (hmem e).mp he with hold | hnew
    · exact h.names hopen e hold l hl
    · obtain ⟨l', hl', hname⟩ := hnamed e hnew
      exact hname.eq hl ▸ hl'
  · rcases (hmem e).mp he with hold | hnew
    · exact later (h.fresh hopen e hold l hl hcarries)
    · exact ⟨e, List.mem_append_left _ hnew, hcarries⟩

/-- After a succeeded report the job is closed, so nothing is left to show for the names of open jobs. -/
theorem not_open {jobs : List JobRow} (hids : (jobs.map (·.id)).Nodup)
    (hclosed : ∃ j ∈ jobs, j.id = job.id ∧ j.status = .succeeded) : ¬ Open job jobs := by
  rintro ⟨j, hj, hid, hlive⟩
  obtain ⟨k, hk, hkid, hstatus⟩ := hclosed
  obtain rfl := eq_of_key hids hj hk (hid.trans hkid.symm)
  rw [hstatus] at hlive
  cases hlive

theorem Sound.commit (h : Sound account job s τ) (htrue : r.Truthful account job s.placed) (hjob : IsJob job row)
    (hunique : Unique (reportWrite s.db r row newer now).1.emails) :
    Sound account job { s with db := (reportWrite s.db r row newer now).1 } τ := by
  have hjobs : JobsMoved job s.db.jobs (reportWrite s.db r row newer now).1.jobs := by
    refine jobs_moved h.jobs.ids h.jobs.rows ?_ (moves_reportWrite s.db r row newer now)
    rintro _ _ _ _ ⟨⟩
    exact hjob.key.id
  have hop : row.operation = .move := hjob.key.operation.trans h.move
  rcases reportWrite_emails (s := s) hop r newer now with hsame | ⟨hr, hguard, p, hp, hemails⟩
  · exact h.keep (by rw [hsame]; exact forall₂_sameKeys _) hjobs rfl rfl
  have haccept : acceptsProjection r row = true := by simp [acceptsProjection, hp]
  have hclosed : ¬ Open job (reportWrite s.db r row newer now).1.jobs := by
    obtain ⟨j, hj, hid, hstatus⟩ := reportWrite_closes haccept hr newer hguard
    exact not_open hjobs.ids ⟨j, hj, hid.trans hjob.key.id, hstatus⟩
  obtain ⟨l, -, hl⟩ := htrue.2 hr
  rw [hl] at hp
  obtain ⟨-, -, -, -, -, -, hmessage⟩ := (normalizedMoveProjection_imap (hjob.key.provider.trans h.imap)).mp hp
  have hidentity := hjob.identity
  simp only [JobRow.identity, Identity.mk.injEq] at hidentity
  obtain ⟨e, he, hid, haccount⟩ := h.row
  refine ⟨h.move, h.imap, hunique, ⟨hjobs.ids, hjobs.rows, fun hopen => hopen⟩, ?_, fun e' he' hid' => ?_, h.placed,
    h.source, h.stored, fun e' he' => ?_, fun hopen => absurd hopen hclosed, fun hopen => absurd hopen hclosed⟩
  · refine ⟨relocateEmail p now e, ?_, hid, haccount⟩
    rw [hemails]
    exact mem_updateWhere.mpr ⟨e, he, by rw [if_pos (by simpa [hjob.key.emailId] using hid)]⟩
  · rw [hemails] at he'
    obtain ⟨k, hk, rfl⟩ := mem_updateWhere.mp he'
    by_cases hkid : k.id = row.emailId
    · rw [if_pos (decide_eq_true hkid)]
      exact hmessage.trans hidentity.2.2.2
    · rw [if_neg (by simp [hkid])] at hid' ⊢
      exact h.message k hk hid'
  · obtain ⟨k, hk, hkeys, hne⟩ := h.kept e' he'
    refine ⟨k, ?_, hkeys, hne⟩
    rw [hemails]
    exact mem_updateWhere.mpr ⟨k, hk, by rw [if_neg (by simpa [hjob.key.emailId] using hne)]⟩

/-! ### Every step -/

/-- A claim, or a report before its write, leaves `emails` alone. -/
theorem call_moves {db : Store} {c c' : Call} {ev : List Event} {placed : List Location}
    (hc : c.OfJob account job placed) (h : QueueStep s.db c db c' ev)
    (hw : c.writes = false) :
    db.emails = s.db.emails ∧ List.Forall₂ (JobMoves s.db.jobs c) s.db.jobs db.jobs := by
  cases h with
  | insert | supersede | project => cases hc
  | repair => exact ⟨rfl, moves_repair ..⟩
  | lease => exact ⟨rfl, moves_leaseBatch _ _ _ _ (List.Subset.refl _) _⟩
  | write => cases hw
  | _ => exact ⟨rfl, forall₂_refl_of fun _ _ => .refl⟩

/-- The job that a report of these runs works with is the job. -/
theorem ofJob_next (h : Sound account job s τ) {db : Store} {c c' : Call} {ev : List Event}
    (hc : c.OfJob account job s.placed) (hst : QueueStep s.db c db c' ev)
    (hallowed : c'.Allowed account job s.placed) : c'.OfJob account job s.placed := by
  cases hst with
  | load | plan | insert | supersede => first | exact hc.elim | exact hallowed.elim
  | beginReport => exact hallowed
  | fetch row hfind =>
    have hid : row.id = job.id := (holdsLease_iff.mp (List.find?_some hfind)).1.trans hc.1
    exact ⟨hc, h.jobs.rows row (List.mem_of_find?_eq_some hfind) hid⟩
  | compare | readClock => exact hc
  | _ => trivial

theorem mail_step {τ' : List EmailRow} {c c' : MailCall} (h : Sound account job s τ) (hc : c.Sound account job s)
    (hst : MailStep account message job s c s' c' τ') :
    Sound account job s' (τ' ++ τ) ∧ c'.Sound account job s' ∧ Grows s s' := by
  have same : Grows s s := ⟨List.Subset.refl _, List.Subset.refl _⟩
  have idle : ∀ s : Mail, (MailCall.call .idle).Sound account job s := fun _ => trivial
  cases hst with
  | put m l hnew => exact ⟨h.put m hnew (.inl rfl), idle _, List.Subset.refl _, List.subset_cons_self ..⟩
  | expunge m =>
    exact ⟨⟨h.move, h.imap, h.unique, h.jobs, h.row, h.message, h.placed, h.source, h.stored, h.kept, h.names, h.fresh⟩,
      idle _, List.Subset.refl _, List.Subset.refl _⟩
  | move source l hm hnew =>
    exact ⟨h.put message hnew (.inr rfl), idle _, List.subset_cons_self .., List.subset_cons_self ..⟩
  | fetch uploads hfetch =>
    refine ⟨h, fun e he => ?_, same⟩
    obtain ⟨m, l, hplace, hnames⟩ := hfetch e he
    exact ⟨l, s.mailbox.given m l hplace, hnames⟩
  | reject => exact ⟨h, idle _, same⟩
  | accept deleting uuids haccepts hu =>
    refine ⟨h, fun e he => ?_, same⟩
    obtain ⟨u, hu, id, hrow⟩ := mem_insertRows he
    obtain ⟨l, hl, hnames⟩ := hc u hu
    exact ⟨l, hl, hnames.row hrow⟩
  | insert hne =>
    exact ⟨h.insert fun e he => hc e (List.mem_of_mem_take he), fun e he => hc e (List.mem_of_mem_drop he),
      List.Subset.refl _, List.Subset.refl _⟩
  | inserted => exact ⟨h, trivial, same⟩
  | refresh differs hne =>
    exact ⟨h.keep (refreshBatch_sameKeys _ _ _ _) h.jobs rfl rfl, trivial, List.Subset.refl _, List.Subset.refl _⟩
  | refreshed => exact ⟨h, idle _, same⟩
  | @call c c' db ev hst hallowed hw =>
    obtain ⟨hemails, hmoves⟩ := call_moves (s := s) hc hst hw
    have hjobs := jobs_moved h.jobs.ids h.jobs.rows (fun _ _ _ _ hcw => by rw [hcw] at hw; cases hw) hmoves
    refine ⟨h.keep ?_ hjobs rfl rfl, ofJob_next h hc hst hallowed, List.Subset.refl _, List.Subset.refl _⟩
    rw [hemails]
    exact forall₂_sameKeys _
  | commit hbatch =>
    unfold reportBatch at hbatch
    split at hbatch
    · rename_i hunique
      obtain ⟨rfl, rfl⟩ := Prod.mk.inj (Option.some.inj hbatch)
      exact ⟨h.commit hc.1 hc.2 hunique, idle _, List.Subset.refl _, List.Subset.refl _⟩
    · cases hbatch
  | abort => exact ⟨h, idle _, same⟩

theorem sound {w : World Mail MailCall EmailRow} (h : Reachable (mail account message job) w) :
    Sound account job w.store w.trace ∧ ∀ i, (w.pc i).Sound account job w.store := by
  refine Reach.shared (I := Sound account job) (L := fun s _ c => c.Sound account job s) ?_ ?_ ?_ h
  · exact fun s hs => ⟨sound_init hs, trivial⟩
  · intro w i s' c' τ' _ _ hI hL hst
    obtain ⟨hsound, hown, -⟩ := mail_step hI hL hst
    exact ⟨hsound, hown⟩
  · intro w i j s' c' τ' _ _ _ hI hL hother hst
    exact hother.grow (mail_step hI hL hst).2.2

/-! ### The report commits unless its name is taken -/

/-- A stored row is another row of `emails` with the name in both columns. -/
theorem Sound.taken (h : Sound account job s τ) (hstored : Stored (makeImapUid account l) τ) :
    ∃ e ∈ s.db.emails, e.id ≠ job.emailId ∧ Named account l e := by
  obtain ⟨e, he, hcarries⟩ := hstored
  obtain ⟨l', -, hnamed⟩ := h.stored e he
  obtain rfl := hnamed.eq hcarries
  obtain ⟨e', he', hkeys, hne⟩ := h.kept e he
  exact ⟨e', he', hne, hkeys.accountId.trans hnamed.1, hkeys.imapUid.trans hnamed.2.1,
    hkeys.sourceKey.trans hnamed.2.2⟩

/-- Two rows with one name break an index, if one has it in both columns. -/
theorem Named.alone {e e' : EmailRow} (h : Named account l e) (hapart : e'.conflicts e = false)
    (hcarries : e'.carries (makeImapUid account l) = true) : False := by
  obtain ⟨-, huid, hkey, -⟩ := not_conflicts hapart
  rw [h.2.1] at huid
  rw [h.2.2] at hkey
  simp only [EmailRow.carries, Bool.or_eq_true, decide_eq_true_eq] at hcarries
  rcases hcarries with hc | hc
  · simp [sameKey, hc] at huid
  · simp [sameKey, hc] at hkey

theorem holder_processing (hids : (s.db.jobs.map (·.id)).Nodup)
    (hguard : leaseGuard r row now s.db.jobs = true) {j : JobRow} (hj : j ∈ s.db.jobs) (hid : j.id = row.id) :
    j.status = .processing := by
  obtain ⟨k, hk, hl⟩ := List.any_eq_true.mp hguard
  obtain ⟨hkid, hprocessing, -⟩ := holdsLease_iff.mp hl
  obtain rfl := eq_of_key hids hj hk (hid.trans hkid.symm)
  exact hprocessing

/-- A report that completes has been accepted, under a name that was free. -/
theorem Sound.of_completes (h : Sound account job s τ) (hjob : IsJob job row) (hr : r.status = .succeeded)
    (hguard : leaseGuard r row now s.db.jobs = true) (hl : l ∈ s.placed)
    (hp : r.projection = some (imapMoveProjection account l))
    (hdone : Completes account job l (reportBatch s.db r row newer now)) :
    Reportable account job l ∧ ¬ Stored (makeImapUid account l) τ := by
  have hopen := leaseGuard_open hguard hjob.key.id
  have hop : row.operation = .move := hjob.key.operation.trans h.move
  unfold reportBatch at hdone
  split at hdone
  swap
  · exact hdone.elim
  rename_i hunique
  obtain ⟨⟨j, hj, hid, hstatus⟩, e, heid, hone⟩ := hdone
  have haccept : acceptsProjection r row = true := by
    by_contra hreject
    rw [reportWrite, if_neg hreject] at hj
    rw [holder_processing h.jobs.ids hguard hj (hid.trans hjob.key.id.symm)] at hstatus
    cases hstatus
  obtain ⟨p, hproj⟩ : ∃ p, normalizedMoveProjection row r.projection = some p := by
    rw [← Option.isSome_iff_exists]
    simpa [acceptsProjection, hr, hop] using haccept
  have hemails : (reportWrite s.db r row newer now).1.emails =
      updateWhere (·.id = row.emailId) (relocateEmail p now) s.db.emails := by
    rw [reportWrite_accepted newer now haccept]
    simp only [beforeClose, hr, hop, hproj, hguard, if_true]
  rw [hp] at hproj
  obtain ⟨htarget, hfolder, -, hkey, -, -, -⟩ :=
    (normalizedMoveProjection_imap (hjob.key.provider.trans h.imap)).mp hproj
  -- the row that completes is the job's, relocated
  have hmem := List.mem_filter.mp (hone ▸ List.mem_singleton_self e)
  have hcarries : e.carries (makeImapUid account l) = true := by
    rw [Bool.and_eq_true] at hmem
    exact hmem.2.2
  obtain ⟨k, hk, hek⟩ := mem_updateWhere.mp (hemails ▸ hmem.1)
  have hkid : k.id = row.emailId := by
    by_contra hne
    rw [if_neg (by simp [hne])] at hek
    exact hne (hek ▸ heid.trans hjob.key.emailId.symm)
  rw [if_pos (decide_eq_true hkid)] at hek
  have hnew : ¬ k.carries (makeImapUid account l) = true := fun hold => by
    obtain ⟨e', he', hne, hnamed⟩ := h.taken (h.fresh hopen k hk l hl hold)
    exact hnamed.alone (h.unique.apart hk he' fun heq => hne (heq ▸ hkid.trans hjob.key.emailId)) hold
  have hname : p.sourceKey = makeImapUid account l := by
    subst hek
    simp only [EmailRow.carries, relocateEmail, Bool.or_eq_true, decide_eq_true_eq, Option.some.injEq] at hcarries
    rcases hcarries with hc | hc
    · split at hc
      · exact Option.some.inj (of_decide_eq_true hc)
      · exact absurd (by simp [EmailRow.carries, of_decide_eq_true hc]) hnew
    · exact hc
  refine ⟨⟨hjob.key.targetFolder ▸ htarget, hjob.key.targetFolder ▸ hfolder, hname ▸ hkey⟩, fun hstored => ?_⟩
  obtain ⟨e', he', hne, hnamed⟩ := h.taken hstored
  have he'new : e' ∈ (reportWrite s.db r row newer now).1.emails := by
    rw [hemails]
    exact mem_updateWhere.mpr ⟨e', he', by rw [if_neg (by simpa [hjob.key.emailId] using hne)]⟩
  exact hnamed.alone (Unique.apart hunique hmem.1 he'new fun heq => hne (heq ▸ heid)) hcarries

/-- A report under a free name that passes the checks completes. -/
theorem Sound.completes (h : Sound account job s τ) (hjob : IsJob job row) (hr : r.status = .succeeded)
    (hguard : leaseGuard r row now s.db.jobs = true) (hl : l ∈ s.placed)
    (hp : r.projection = some (imapMoveProjection account l)) (hok : Reportable account job l)
    (hfree : ¬ Stored (makeImapUid account l) τ) :
    Completes account job l (reportBatch s.db r row newer now) := by
  have hopen := leaseGuard_open hguard hjob.key.id
  have hop : row.operation = .move := hjob.key.operation.trans h.move
  have hidentity := hjob.identity
  simp only [JobRow.identity, Identity.mk.injEq] at hidentity
  have hnone : ∀ e ∈ s.db.emails, e.carries (makeImapUid account l) = false := fun e he => by
    by_contra hcarries
    exact hfree (h.fresh hopen e he l hl (by simpa using hcarries))
  obtain ⟨folder, hfolder⟩ : ∃ folder, boundedText (some l.folder) 1024 = some folder := by
    rw [← Option.ne_none_iff_exists']
    intro hnofolder
    have htarget := hok.target
    rw [← hok.folder, hnofolder] at htarget
    cases htarget
  have hproj : normalizedMoveProjection row r.projection =
      some ⟨folder, none, makeImapUid account l, row.providerMessageId⟩ := by
    rw [hp, normalizedMoveProjection_imap (hjob.key.provider.trans h.imap)]
    refine ⟨hjob.key.targetFolder ▸ hok.target, hjob.key.targetFolder ▸ hok.folder, hfolder, hok.key, ?_, rfl, rfl⟩
    rw [hidentity.2.2.1]
    exact fun heq => (h.placed l hl).2 heq.symm
  have haccept : acceptsProjection r row = true := by simp [acceptsProjection, hproj]
  have hemails : (reportWrite s.db r row newer now).1.emails = updateWhere (·.id = job.emailId)
      (relocateEmail ⟨folder, none, makeImapUid account l, row.providerMessageId⟩ now) s.db.emails := by
    rw [reportWrite_accepted newer now haccept]
    simp only [beforeClose, hr, hop, hproj, hguard, if_true, hjob.key.emailId]
  have hunique : Unique (reportWrite s.db r row newer now).1.emails := by
    rw [hemails]
    exact h.unique.relocate (fun e he _ => hnone e he)
      (fun e he hid => (h.message e he hid).trans hidentity.2.2.2.symm) now
  rw [reportBatch, if_pos hunique]
  obtain ⟨j, hj, hid, hstatus⟩ := reportWrite_closes haccept hr newer hguard
  obtain ⟨e, he, heid, haccount⟩ := h.row
  refine ⟨⟨j, hj, hid.trans hjob.key.id, hstatus⟩, relocateEmail ⟨folder, none, makeImapUid account l, row.providerMessageId⟩ now e, heid, ?_⟩
  refine filter_eq_singleton hunique.ids ?_ ?_ fun e' he' hcarries => ?_
  · rw [hemails]
    exact mem_updateWhere.mpr ⟨e, he, by rw [if_pos (by simpa using heid)]⟩
  · simp [EmailRow.carries, relocateEmail, haccount]
  · -- a row that is not relocated had the name before
    rw [hemails] at he'
    obtain ⟨k, hk, rfl⟩ := mem_updateWhere.mp he'
    by_cases hkid : k.id = job.emailId
    · rw [if_pos (decide_eq_true hkid)]
      exact hkid.trans heid.symm
    · rw [if_neg (by simp [hkid]), hnone k hk, Bool.and_false] at hcarries
      cases hcarries

/-- In every reachable state, a succeeded report under a valid lease that names a location where the job's
    move has put the message completes the move if and only if the names pass its checks unchanged and ingest
    has not stored the message under that name. -/
theorem move_completes {w : World Mail MailCall EmailRow} (h : Reachable (mail account message job) w) {i : ℕ}
    (hpc : w.pc i = .call (.writing r row newer now)) (hr : r.status = .succeeded)
    (hguard : leaseGuard r row now w.store.db.jobs = true) (hl : l ∈ w.store.placed)
    (hp : r.projection = some (imapMoveProjection account l)) :
    Completes account job l (reportBatch w.store.db r row newer now) ↔
      Reportable account job l ∧ ¬ Stored (makeImapUid account l) w.trace := by
  obtain ⟨hsound, hcalls⟩ := sound h
  have hcall : (MailCall.call (.writing r row newer now)).Sound account job w.store := hpc ▸ hcalls i
  constructor
  · exact hsound.of_completes hcall.2 hr hguard hl hp
  · rintro ⟨hok, hfree⟩
    exact hsound.completes hcall.2 hr hguard hl hp hok hfree

/-! ### After the report -/

theorem OneRow.moved {t u : List EmailRow} (h : OneRow account job l t)
    (hm : List.Forall₂ EmailRow.SameKeys t u) : OneRow account job l u := by
  obtain ⟨e, hid, hone⟩ := h
  have hfilter := List.rel_filter (R := EmailRow.SameKeys)
    (p := fun e => e.accountId = some account.id && e.carries (makeImapUid account l))
    (q := fun e => e.accountId = some account.id && e.carries (makeImapUid account l))
    (fun a b hab => by
      show _ ↔ _
      simp only [hab.accountId, hab.carries]) hm
  rw [hone, List.forall₂_cons_left_iff] at hfilter
  obtain ⟨e', u', hkeys, hnil, heq⟩ := hfilter
  rw [List.forall₂_nil_left_iff] at hnil
  exact ⟨e', hkeys.id.trans hid, by rw [heq, hnil]⟩

/-- Ingest stores no second row with the name. -/
theorem OneRow.insert {rows : List EmailRow} (h : OneRow account job l emails) (hunique : Unique emails)
    (hrows : ∀ e ∈ rows, ∃ l, Named account l e) : OneRow account job l (insertBatch emails rows).emails := by
  obtain ⟨e, hid, hone⟩ := h
  refine ⟨e, hid, ?_⟩
  have hmem := List.mem_filter.mp (hone ▸ List.mem_singleton_self e)
  rw [Bool.and_eq_true] at hmem
  rw [insertBatch_emails, List.filter_append, hone, List.filter_eq_nil_iff.mpr, List.append_nil]
  intro e' he' hcarries
  rw [Bool.and_eq_true] at hcarries
  obtain ⟨l', hnamed⟩ := hrows e' (stored_subset rows emails he')
  obtain rfl := hnamed.eq hcarries.2
  exact hnamed.alone (stored_apart hunique he' hmem.1) hmem.2.2

/-- Once the job is closed, the one row stays the only one, whatever is synced or reported. -/
theorem one_row_stays {w w' : World Mail MailCall EmailRow} {i : ℕ} (h : Reachable (mail account message job) w)
    (hclosed : ¬ Open job w.store.db.jobs) (hone : OneRow account job l w.store.db.emails)
    (hst : Step (mail account message job) i w w') :
    ¬ Open job w'.store.db.jobs ∧ OneRow account job l w'.store.db.emails := by
  obtain ⟨hsound, hcalls⟩ := sound h
  obtain ⟨s', c', τ', hstep, rfl⟩ := hst
  have hcall := hcalls i
  have hstep : MailStep account message job w.store (w.pc i) s' c' τ' := hstep
  simp only [advance_store]
  rcases hpc : w.pc i with c | uploads | ⟨rows, replayed, nowMs⟩ | ⟨replayed, nowMs⟩ <;> rw [hpc] at hstep hcall
  · cases hstep with
    | put | expunge | move | fetch | abort => exact ⟨hclosed, hone⟩
    | @call _ c' db ev hst hallowed hw =>
      obtain ⟨hemails, hmoves⟩ := call_moves (s := w.store) hcall hst hw
      have hjobs := jobs_moved hsound.jobs.ids hsound.jobs.rows
        (fun _ _ _ _ hcw => by rw [hcw] at hw; cases hw) hmoves
      exact ⟨fun hopen => hclosed (hjobs.wasOpen hopen), hemails ▸ hone⟩
    | @commit r row newer now db ev hbatch =>
      -- no lease of a closed job is valid, so the report writes nothing
      have hstale : leaseGuard r row now w.store.db.jobs = false := by
        by_contra hguard
        exact hclosed (leaseGuard_open (by simpa using hguard) hcall.2.key.id)
      unfold reportBatch at hbatch
      split at hbatch
      · rw [reportWrite_stale hstale] at hbatch
        obtain ⟨rfl, rfl⟩ := Prod.mk.inj (Option.some.inj hbatch)
        exact ⟨hclosed, hone⟩
      · cases hbatch
  · cases hstep <;> exact ⟨hclosed, hone⟩
  · cases hstep with
    | insert hne =>
      refine ⟨hclosed, hone.insert hsound.unique fun e he => ?_⟩
      obtain ⟨l', -, hnamed⟩ := hcall e (List.mem_of_mem_take he)
      exact ⟨l', hnamed⟩
    | inserted => exact ⟨hclosed, hone⟩
  · cases hstep with
    | refresh differs hne => exact ⟨hclosed, hone.moved (refreshBatch_sameKeys _ _ _ _)⟩
    | refreshed => exact ⟨hclosed, hone⟩

/-! ### A move of one message -/

def demoAccount : MailAccount := ⟨js "acc", js "imap"⟩

def inboxPlace : Location := ⟨js "INBOX", 7, 42⟩

def trashPlace : Location := ⟨js "Trash", 9, 5⟩

/-- `demoEmail` under the name of its place. -/
def placedEmail : EmailRow :=
  { demoEmail with
    sourceKey := some (makeImapUid demoAccount inboxPlace), imapUid := some (makeImapUid demoAccount inboxPlace) }

def placedJob : JobRow := newJob 1 placedEmail moveIntent (js "j1") 0

def demoMailbox : Mailbox where
  place m := if m = 0 then some inboxPlace else none
  assigned := [inboxPlace]
  given m l h := by
    split at h
    · rw [← Option.some.inj h]
      exact List.mem_singleton_self _
    · cases h

def demoMail : Mail := ⟨⟨[placedJob], [placedEmail], 0⟩, demoMailbox, []⟩

/-- The report that the message is in the trash. -/
def placedReport : Report :=
  ⟨js "j1", js "t", .succeeded, none, none, some (imapMoveProjection demoAccount trashPlace)⟩

theorem demoMail_queued : Mail.Queued demoAccount placedJob demoMail where
  unique := by decide
  ids := by decide
  queued := List.mem_singleton_self _
  move := rfl
  imap := rfl
  row := ⟨placedEmail, List.mem_singleton_self _, rfl, rfl, by decide⟩
  names e he l hl := by
    obtain rfl := List.mem_singleton.mp he
    simp only [EmailRow.carries, placedEmail, Bool.or_self, decide_eq_true_eq, Option.some.injEq] at hl
    exact List.mem_singleton.mpr (makeImapUid_injective hl).symm
  placed := rfl

/-- The state after the claim and the move. -/
def movedMail : Mail where
  db := ⟨[leaseRow demoClaim 0 placedJob], [placedEmail], 0⟩
  mailbox := demoMailbox.put 0 trashPlace
  placed := [trashPlace]

/-- Request 1 claims the job, and the provider moves the message. -/
theorem movedMail_reach : ∃ w, Reachable (mail demoAccount 0 placedJob) w ∧ w.store = movedMail ∧ w.trace = [] ∧
    ∀ i, w.pc i = .call .idle := by
  have h : Reachable (mail demoAccount 0 placedJob) ⟨demoMail, fun _ => .call .idle, []⟩ := .start demoMail_queued
  obtain ⟨w, h, hs, ht, hpc, hne⟩ := h.move 1 trivial rfl rfl
    (.call (.beginClaim demoClaim (by decide)) trivial rfl)
  obtain ⟨w₁, h, hs, ht₁, hpc, hne₁⟩ := h.move 1 trivial hs hpc (.call .repair trivial rfl)
  obtain ⟨w₂, h, hs, ht₂, hpc, hne₂⟩ := h.move 1 trivial hs hpc (.call .select trivial rfl)
  obtain ⟨w₃, h, hs, ht₃, hpc, hne₃⟩ := h.move 1 trivial hs hpc (.call .lease trivial rfl)
  obtain ⟨w₄, h, hs, ht₄, hpc, hne₄⟩ := h.move 1 trivial hs hpc (.call .answerClaim trivial rfl)
  obtain ⟨w₅, h, hs, ht₅, hpc, hne₅⟩ := h.move 1 trivial hs hpc (.move inboxPlace trashPlace rfl (by decide))
  refine ⟨w₅, h, hs.trans ?_, ?_, fun i => ?_⟩
  · have hjobs : (leaseBatch demoClaim 0 (selectCandidates demoClaim 0 (demoClaim.endpoint.repair 0 [placedJob]))
        (demoClaim.endpoint.repair 0 [placedJob])).1 = [leaseRow demoClaim 0 placedJob] := by decide
    simp only [movedMail, demoMail, hjobs]
  · rw [ht₅, ht₄, ht₃, ht₂, ht₁, ht]
    rfl
  · by_cases hi : i = 1
    · rw [hi, hpc]
    · rw [hne₅ i hi, hne₄ i hi, hne₃ i hi, hne₂ i hi, hne₁ i hi, hne i hi]

/-- Request 2 reports the move; before its write the state is unchanged. -/
theorem report_reach {w : World Mail MailCall EmailRow} (h : Reachable (mail demoAccount 0 placedJob) w)
    (hs : w.store.db.jobs = [leaseRow demoClaim 0 placedJob]) (hclock : w.store.db.clock = 0)
    (hplaced : w.store.placed = [trashPlace]) (hpc : w.pc 2 = .call .idle) :
    ∃ w', Reachable (mail demoAccount 0 placedJob) w' ∧ w'.store = w.store ∧ w'.trace = w.trace ∧
      w'.pc 2 = .call (.writing placedReport (leaseRow demoClaim 0 placedJob) false 0) := by
  have htrue : placedReport.Truthful demoAccount placedJob w.store.placed :=
    ⟨rfl, fun _ => ⟨trashPlace, by rw [hplaced]; exact List.mem_singleton_self _, rfl⟩⟩
  obtain ⟨w₁, h, hs₁, ht₁, hpc, -⟩ := h.move 2 trivial rfl hpc
    (.call (.beginReport placedReport (by decide)) htrue rfl)
  obtain ⟨w₂, h, hs₂, ht₂, hpc, -⟩ := h.move 2 trivial hs₁ hpc
    (.call (.fetch (leaseRow demoClaim 0 placedJob) (by rw [hs, hclock]; decide)) trivial rfl)
  obtain ⟨w₃, h, hs₃, ht₃, hpc, -⟩ := h.move 2 trivial hs₂ hpc (.call .compare trivial rfl)
  obtain ⟨w₄, h, hs₄, ht₄, hpc, -⟩ := h.move 2 trivial hs₃ hpc (.call .readClock trivial rfl)
  refine ⟨w₄, h, hs₄, ?_, ?_⟩
  · rw [ht₄, ht₃, ht₂, ht₁]
    rfl
  · rw [hpc, hs, hclock]
    have hnewer : newerIntentExists [leaseRow demoClaim 0 placedJob] (leaseRow demoClaim 0 placedJob) = false := by
      decide
    rw [hnewer]

/-- Reported before the trash is synced, the move completes. -/
theorem move_completes_demo : ∃ w, Reachable (mail demoAccount 0 placedJob) w ∧
    Completes demoAccount placedJob trashPlace
      (reportBatch w.store.db placedReport (leaseRow demoClaim 0 placedJob) false 0) := by
  obtain ⟨w, h, hs, ht, hidle⟩ := movedMail_reach
  obtain ⟨w', h', hs', ht', hpc⟩ := report_reach h (by rw [hs]; rfl) (by rw [hs]; rfl) (by rw [hs]; rfl) (hidle 2)
  refine ⟨w', h', (move_completes h' hpc rfl ?_ ?_ rfl).mpr ⟨⟨by decide, by decide, by decide⟩, ?_⟩⟩
  · rw [hs', hs]
    decide
  · rw [hs', hs]
    exact List.mem_singleton_self _
  · rw [ht', ht]
    rintro ⟨e, he, -⟩
    cases he

/-- What a sync of the trash uploads of the moved message. -/
def trashUpload : Upload where
  id := none
  source := some (js "imap_gmail")
  accountId := some (js "acc")
  fromAddr := some (js "a@y")
  toAddr := some (js "u@x")
  receivedAt := none
  internalDate := none
  updatedAt := none
  isRead := none
  isStarred := none
  provider := some (js "imap")
  sourceFolder := some (js "Trash")
  sourceFolderId := none
  providerMessageId := none
  sourceKey := some (makeImapUid demoAccount trashPlace)
  imapUid := some (makeImapUid demoAccount trashPlace)
  messageIdHeader := none

/-- Request 3 syncs the trash between the move and its report: the batch of the report breaks an index. -/
theorem synced_target_blocks : ¬ ∀ (account : MailAccount) (message : ℕ) (job : JobRow)
    (w : World Mail MailCall EmailRow), Reachable (mail account message job) w →
    ∀ i r row newer now, w.pc i = .call (.writing r row newer now) → r.status = .succeeded →
      leaseGuard r row now w.store.db.jobs = true → ∀ l ∈ w.store.placed,
      r.projection = some (imapMoveProjection account l) →
      Completes account job l (reportBatch w.store.db r row newer now) := by
  intro hall
  obtain ⟨w, h, hs, ht, hidle⟩ := movedMail_reach
  obtain ⟨w₁, h, hs₁, -, hpc, hne⟩ := h.move 3 trivial hs (hidle 3) (.fetch [trashUpload] fun e he => by
    obtain rfl := List.mem_singleton.mp he
    exact ⟨0, trashPlace, rfl, rfl, rfl, .inr rfl⟩)
  obtain ⟨w₂, h, hs₂, -, hpc, hne₂⟩ := h.move 3 trivial hs₁ hpc
    (.accept (fun _ => false) [js "m2"] (by decide) (by decide))
  obtain ⟨w₃, h, hs₃, -, -, hne₃⟩ := h.move 3 trivial hs₂ hpc (.insert (by decide))
  have hpc₂ : w₃.pc 2 = .call .idle := by
    rw [hne₃ 2 (by decide), hne₂ 2 (by decide), hne 2 (by decide), hidle]
  obtain ⟨w', h', hs', -, hpc'⟩ := report_reach h (by rw [hs₃]; rfl) (by rw [hs₃]; rfl) (by rw [hs₃]; rfl) hpc₂
  have hdone := hall _ _ _ w' h' 2 _ _ _ _ hpc' rfl (by rw [hs', hs₃]; decide) trashPlace
    (by rw [hs', hs₃]; exact List.mem_singleton_self _) rfl
  have hbatch : reportBatch w'.store.db placedReport (leaseRow demoClaim 0 placedJob) false 0 = none := by
    rw [hs', hs₃]
    decide
  rw [hbatch] at hdone
  exact hdone

end OneMail.Mutation
