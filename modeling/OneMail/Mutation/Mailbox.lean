import OneMail.Js.Uri
import OneMail.Mutation.Identity
import OneMail.Mutation.Ingest

/-! One move of an IMAP message beside the syncs of its folders (`mutation_jobs.py`, `imap_base.py`,
    `ingest.ts`, `mutation_jobs.ts`).

    The provider's mailbox names a message by folder, UIDVALIDITY and UID and never uses a name twice. The
    aggregator uploads messages under the names they have, carries the move out, and reports where it put the
    message; the worker ingests, claims and writes the report. Every D1 round trip, every fetch and every
    command at the provider is a step of its own. -/

namespace OneMail.Mutation
open JsString Table Interleave

/-! ### The mailbox -/

/-- The columns of an `AccountConfig` that name its messages. -/
structure MailAccount where
  id : JsString
  host : JsString
  deriving DecidableEq

/-- Where an IMAP server keeps a message. -/
structure Location where
  folder : JsString
  uidvalidity : ℕ
  uid : ℕ
  deriving DecidableEq

def makeImapUid (account : MailAccount) (l : Location) : JsString :=
  (account.id ++ colon :: account.host ++ colon :: l.folder ++ colon :: numeral l.uidvalidity) ++
    colon :: numeral l.uid

/-- The places of the messages, by number, and every location the server has ever given out. -/
structure Mailbox where
  place : ℕ → Option Location
  assigned : List Location
  given : ∀ m l, place m = some l → l ∈ assigned

/-- A message gets a location: it arrives, is moved, or its folder gets a new UIDVALIDITY. -/
def Mailbox.put (mailbox : Mailbox) (message : ℕ) (l : Location) : Mailbox where
  place := Function.update mailbox.place message (some l)
  assigned := l :: mailbox.assigned
  given m l' h := by
    by_cases hm : m = message
    · rw [hm, Function.update_self] at h
      exact List.mem_cons.mpr (.inl (Option.some.inj h).symm)
    · rw [Function.update_of_ne hm] at h
      exact List.mem_cons_of_mem _ (mailbox.given m l' h)

def Mailbox.expunge (mailbox : Mailbox) (message : ℕ) : Mailbox where
  place := Function.update mailbox.place message none
  assigned := mailbox.assigned
  given m l' h := by
    by_cases hm : m = message
    · rw [hm, Function.update_self] at h
      cases h
    · rw [Function.update_of_ne hm] at h
      exact mailbox.given m l' h

/-- `_imap_move_projection` -/
def imapMoveProjection (account : MailAccount) (l : Location) : MutationProjection :=
  ⟨some l.folder, none, some (makeImapUid account l), none⟩

/-- The upload of a message found at `l`; aggregators of an earlier version send no source key. -/
def Upload.Names (account : MailAccount) (l : Location) (e : Upload) : Prop :=
  e.accountId = some account.id ∧ e.imapUid = some (makeImapUid account l) ∧
    (e.sourceKey = none ∨ e.sourceKey = some (makeImapUid account l))

/-- The row has the identity, in either of its columns. -/
def EmailRow.carries (key : JsString) (row : EmailRow) : Bool := row.imapUid = some key || row.sourceKey = some key

/-! ### The system -/

/-- The database, the mailbox, and where moves of the job have put its message. -/
structure Mail where
  db : Store
  mailbox : Mailbox
  placed : List Location

inductive MailCall where
  | call (c : Call)
  /-- The messages are fetched; the POST is next. -/
  | posting (uploads : List Upload)
  /-- `insertEmails`: the rows still to send, and those that were there. -/
  | inserting (rows replayed : List EmailRow) (nowMs : ℕ)
  | refreshing (replayed : List EmailRow) (nowMs : ℕ)

/-- The write of a report as D1 runs it: a batch that breaks a unique index is rolled back and throws. -/
def reportBatch (s : Store) (r : Report) (job : JobRow) (newer : Bool) (now : ℕ) : Option (Store × List Event) :=
  if Unique (reportWrite s r job newer now).1.emails then some (reportWrite s r job newer now) else none

variable (account : MailAccount) (message : ℕ) (job : JobRow)

/-- A report of the job; if it says succeeded, it names a location where the job's move put the message. -/
def Report.Truthful (placed : List Location) (r : Report) : Prop :=
  r.jobId = job.id ∧ (r.status = .succeeded → ∃ l ∈ placed, r.projection = some (imapMoveProjection account l))

/-- The requests that begin: claims of any jobs, reports of this job, and none of a user. -/
def Call.Allowed (placed : List Location) : Call → Prop
  | .loaded _ => False
  | .reporting r _ => r.Truthful account job placed
  | _ => True

/-- The write of a report is next. -/
def Call.writes : Call → Bool
  | .writing .. => true
  | _ => false

/-- Events are the rows that ingest has stored. -/
inductive MailStep : Mail → MailCall → Mail → MailCall → List EmailRow → Prop
  -- the provider
  | put {s} (m : ℕ) (l : Location) (h : l ∉ s.mailbox.assigned) :
      MailStep s (.call .idle) { s with mailbox := s.mailbox.put m l } (.call .idle) []
  | expunge {s} (m : ℕ) : MailStep s (.call .idle) { s with mailbox := s.mailbox.expunge m } (.call .idle) []
  | move {s} (source l : Location) (hm : s.mailbox.place message = some source) (h : l ∉ s.mailbox.assigned) :
      MailStep s (.call .idle) { s with mailbox := s.mailbox.put message l, placed := l :: s.placed } (.call .idle) []
  -- ingest
  | fetch {s} (uploads : List Upload)
      (h : ∀ e ∈ uploads, ∃ m l, s.mailbox.place m = some l ∧ e.Names account l) :
      MailStep s (.call .idle) s (.posting uploads) []
  | reject {s uploads} (h : acceptsUploads uploads = false) : MailStep s (.posting uploads) s (.call .idle) []
  | accept {s uploads} (deleting : JsString → Bool) (uuids : List JsString) (h : acceptsUploads uploads = true)
      (hu : uploads.length ≤ uuids.length) :
      MailStep s (.posting uploads) s (.inserting (insertRows deleting uuids s.db.clock uploads) [] s.db.clock) []
  | insert {s rows replayed nowMs} (h : rows ≠ []) :
      MailStep s (.inserting rows replayed nowMs)
        { s with db := { s.db with emails := (insertBatch s.db.emails (rows.take ingestBatch)).emails } }
        (.inserting (rows.drop ingestBatch)
          (replayed ++ (insertBatch s.db.emails (rows.take ingestBatch)).replayed) nowMs)
        (insertBatch s.db.emails (rows.take ingestBatch)).stored
  | inserted {s replayed nowMs} : MailStep s (.inserting [] replayed nowMs) s (.refreshing replayed nowMs) []
  | refresh {s replayed nowMs} (differs : EmailRow → EmailRow → Bool) (h : replayed ≠ []) :
      MailStep s (.refreshing replayed nowMs)
        { s with db := { s.db with
          emails := refreshBatch differs nowMs (replayed.take ingestBatch) s.db.emails } }
        (.refreshing (replayed.drop ingestBatch) nowMs) []
  | refreshed {s nowMs} : MailStep s (.refreshing [] nowMs) s (.call .idle) []
  -- claims and reports
  | call {s c c' db ev} (h : QueueStep s.db c db c' ev) (hc : c'.Allowed account job s.placed)
      (hw : c.writes = false) :
      MailStep s (.call c) { s with db := db } (.call c') []
  | commit {s r row newer now db ev} (h : reportBatch s.db r row newer now = some (db, ev)) :
      MailStep s (.call (.writing r row newer now)) { s with db := db } (.call .idle) []
  | abort {s r row newer now} (h : reportBatch s.db r row newer now = none) :
      MailStep s (.call (.writing r row newer now)) s (.call .idle) []

/-- The job has been queued from the row as it stands, and no row carries a name that the server has still
    to give out. -/
structure Mail.Queued (s : Mail) : Prop where
  unique : Unique s.db.emails
  ids : (s.db.jobs.map (·.id)).Nodup
  queued : job ∈ s.db.jobs
  move : job.operation = .move
  imap : job.provider = .imap
  row : ∃ row ∈ s.db.emails, row.id = job.emailId ∧ row.accountId = some account.id ∧ row.identity = job.identity
  names : ∀ row ∈ s.db.emails, ∀ l, row.carries (makeImapUid account l) = true → l ∈ s.mailbox.assigned
  placed : s.placed = []

def mail : Prog Mail MailCall EmailRow where
  idle := .call .idle
  init := Mail.Queued account job
  step := MailStep account message job

/-- Ingest has stored a row under this name. -/
def Stored (key : JsString) (τ : List EmailRow) : Prop := ∃ row ∈ τ, row.carries key = true

/-- The report of this location passes the checks of `normalizedMoveProjection` unchanged. -/
structure Reportable (l : Location) : Prop where
  target : truthy job.targetFolder = true
  folder : boundedText (some l.folder) 1024 = job.targetFolder
  key : boundedText (some (makeImapUid account l)) 4096 = some (makeImapUid account l)

/-- One row of the account has the name, the job's. -/
def OneRow (l : Location) (emails : List EmailRow) : Prop :=
  ∃ row : EmailRow, row.id = job.emailId ∧
    emails.filter (fun e => e.accountId = some account.id && e.carries (makeImapUid account l)) = [row]

/-- The batch has committed, the job is closed, and one row has the name. -/
def Completes (l : Location) : Option (Store × List Event) → Prop
  | none => False
  | some written => (∃ j ∈ written.1.jobs, j.id = job.id ∧ j.status = .succeeded) ∧
      OneRow account job l written.1.emails

/-! ### Names -/

variable {account}

/-- Different locations have different names. -/
theorem makeImapUid_injective {l l' : Location} (h : makeImapUid account l = makeImapUid account l') : l = l' := by
  obtain ⟨hrest, huid⟩ := colon_suffix (colon_not_mem_numeral _) (colon_not_mem_numeral _) h
  obtain ⟨hrest, hvalidity⟩ := colon_suffix (colon_not_mem_numeral _) (colon_not_mem_numeral _) hrest
  have hfolder := (List.cons.inj (List.append_cancel_left hrest)).2
  cases l
  cases l'
  simp only [Location.mk.injEq]
  exact ⟨hfolder, numeral_injective hvalidity, numeral_injective huid⟩

theorem nullableText_makeImapUid (l : Location) :
    nullableText (some (makeImapUid account l)) = some (makeImapUid account l) := by
  refine orElse_of_ne ?_ none
  simp [makeImapUid]

/-- A row sent for a message carries the one name, in both columns. -/
theorem Upload.Names.row {e : Upload} {l : Location} {id : JsString} {nowMs : ℕ} {row : EmailRow}
    (h : e.Names account l) (hrow : toEmailInsertParams e id nowMs = .ok row) :
    row.accountId = some account.id ∧ row.imapUid = some (makeImapUid account l) ∧
      row.sourceKey = some (makeImapUid account l) := by
  obtain ⟨haccount, huid, hkey⟩ := of_toEmailInsertParams hrow
  obtain ⟨hea, heu, hek⟩ := h
  rw [heu, nullableText_makeImapUid] at huid hkey
  refine ⟨haccount.trans hea, huid, hkey.trans ?_⟩
  rcases hek with hek | hek
  · rw [hek]
    rfl
  · rw [hek, nullableText_makeImapUid]
    rfl

theorem EmailRow.SameKeys.carries {row row' : EmailRow} (h : row.SameKeys row') (key : JsString) :
    row'.carries key = row.carries key := by
  simp only [EmailRow.carries, h.imapUid, h.sourceKey]

end OneMail.Mutation
