import Mathlib
import OneMail.Js.JsString
import OneMail.Lib.Table
import OneMail.Lib.Transition

/-! Moving a mailbox from the primary database to a shard.

    The runs of `runMigration` in `backfill_shard.mjs`: `copy` and `delta` insert the source rows in the
    target page by page, `verify` compares the two stores, `delete` removes what is verified, page by
    page, within a daily budget of rows written. Each durable step is a step of its own, and the process
    may die between any two of them, which is also how a lost answer looks from outside. What survives
    is the checkpoint file of the migration and the ledger file of the source. -/

namespace OneMail.Backfill

open Table Transition

/-! ### The stores -/

inductive Value where
  | null
  | number (n : ℤ)
  | text (s : JsString)
  deriving DecidableEq

/-- A row of `emails`: the columns of `EMAIL_COLUMNS` that the tool reads by name, and the values of
    the other ones in their order. -/
structure Row where
  id : JsString
  source : JsString
  accountId : JsString
  receivedAt : ℤ
  others : List Value
  deriving DecidableEq

/-- How many columns `EMAIL_COLUMNS` lists. -/
def emailColumns : ℕ := 29

def cfRouting : JsString := js "cf_routing"

/-- `account_id = ? AND source != 'cf_routing'`. -/
def emailScope (account : JsString) (row : Row) : Bool :=
  row.accountId = account && row.source ≠ cfRouting

/-- `received_at, id`, the order of copying. -/
def byReceived (a b : Row) : Prop :=
  a.receivedAt < b.receivedAt ∨ (a.receivedAt = b.receivedAt ∧ ¬ b.id < a.id)

instance : DecidableRel byReceived := fun _ _ => inferInstanceAs (Decidable (_ ∨ _))

def byId (a b : Row) : Prop := ¬ b.id < a.id

instance : DecidableRel byId := fun _ _ => inferInstanceAs (Decidable (¬ _))

/-- The row comes after the cursor, if there is one. -/
def afterCursor (cursor : Option (ℤ × JsString)) (row : Row) : Bool :=
  cursor.all fun (receivedAt, id) =>
    receivedAt < row.receivedAt || (row.receivedAt = receivedAt && id < row.id)

/-- `emailPage` in the order of copying. -/
def emailPage (rows : List Row) (account : JsString) (cursor : Option (ℤ × JsString)) (size : ℕ) :
    List Row :=
  selectTop (fun row => emailScope account row && afterCursor cursor row) byReceived size rows

/-- All that `emailsById` yields. -/
def emailsById (rows : List Row) (account : JsString) : List Row :=
  (rows.filter (emailScope account)).insertionSort byId

/-! ### Verification -/

variable (digest : Row → BitVec 256)

/-- `verifyEmailChunk` on a page of at most a hundred rows. -/
def verifyEmailChunk (target page : List Row) : Bool :=
  let found := (target.filter fun m => page.any fun row => row.id = m.id).take page.length
  found.length = page.length && page.all fun row =>
    (found.reverse.find? fun m => m.id = row.id).any fun m => digest row = digest m

/-- What `verify` returns. -/
structure Tally where
  sourceCount : ℕ
  targetCount : ℕ
  folderCount : ℕ
  sourceDigest : BitVec 256
  deriving DecidableEq

/-- The merge of the two id orders; target rows without a source row are passed over. -/
def verifyEmails : List Row → List Row → Tally → Option Tally
  | [], remote, t => some { t with targetCount := t.targetCount + remote.length }
  | row :: rows, remote, t =>
    match remote.dropWhile fun m => m.id < row.id with
    | [] => none
    | m :: remote' =>
      if m.id = row.id ∧ digest row = digest m then
        verifyEmails rows remote'
          { t with
            sourceCount := t.sourceCount + 1
            targetCount := t.targetCount + (remote.takeWhile fun m => m.id < row.id).length + 1
            sourceDigest := t.sourceDigest ^^^ digest row }
      else none

/-- `verify`, given the digests of the source's folder rows, or `none` where the target's folder
    catalogue does not match them. -/
def verify (source target : List Row) (account : JsString) (folders : Option (List (BitVec 256))) :
    Option Tally :=
  (verifyEmails digest (emailsById source account) (emailsById target account) ⟨0, 0, 0, 0⟩).bind fun t =>
    folders.map fun ds =>
      { t with folderCount := ds.length, sourceDigest := ds.foldl (· ^^^ ·) t.sourceDigest }

/-! ### Options and durable files -/

inductive Command where
  | copy
  | delta
  | verify
  | count
  | delete
  deriving DecidableEq

/-- The options of a run, as `parseArgs` lets them through. -/
structure Options where
  command : Command
  account : JsString
  shard : JsString
  stateFile : JsString
  chunkSize : ℕ
  timeoutMs : ℕ
  dailyBudget : ℕ
  confirmCopy : Option JsString
  confirmDelete : Option JsString
  sourceQuiesced : Bool
  chunk_bounds : 1 ≤ chunkSize ∧ chunkSize ≤ 100
  timeout_bounds : 1 ≤ timeoutMs ∧ timeoutMs ≤ 300000
  budget_bounds : 1 ≤ dailyBudget ∧ dailyBudget ≤ 80000

/-- A pass of `copy` or `delta`; `folderCursor` is there while its phase is `folders`. -/
structure Pass where
  command : Command
  folders : Bool
  folderCursor : Option ℕ
  cursor : Option (ℤ × JsString)
  copied : ℕ
  done : Bool
  deriving DecidableEq

/-- The checkpoint file. The parts of the binding that come from the environment are the same in every
    run. -/
structure Checkpoint where
  account : JsString
  shard : JsString
  initialized : Bool
  pass : Option Pass
  verified : Option Tally
  deletionStarted : Bool
  deriving DecidableEq

/-- The ledger of the source: the rows written on each UTC day, spent or reserved. -/
structure Ledger where
  days : ℕ → ℕ
  blocked : Bool

def Ledger.empty : Ledger := ⟨fun _ => 0, false⟩

def Ledger.set (l : Ledger) (day rowsWritten : ℕ) : Ledger :=
  { l with days := Function.update l.days day rowsWritten }

def dayMs : ℕ := 86400000

/-- More than the timeout and a minute are left of the UTC day. -/
def beforeMidnight (o : Options) (clock : ℕ) : Bool := o.timeoutMs + 60000 < dayMs - clock % dayMs

/-- The checkpoint that a run starts from, unless the file belongs to a different migration. -/
def loadCheckpoint (o : Options) : Option Checkpoint → Option Checkpoint
  | none => some ⟨o.account, o.shard, false, none, none, false⟩
  | some s => if s.account = o.account ∧ s.shard = o.shard then some s else none

/-- The pass that a run of `copy` or `delta` works on, if its guards hold. -/
def startPass (o : Options) (s : Checkpoint) : Option Checkpoint :=
  let fresh : Pass := ⟨o.command, true, none, none, 0, false⟩
  let pass := (s.pass.filter fun p => !p.done).getD fresh
  if (o.command = .copy ∨ o.command = .delta) ∧ o.confirmCopy = some o.account ∧
      o.sourceQuiesced = true ∧ (o.command = .delta → s.initialized = true) ∧
      s.deletionStarted = false ∧ pass.command = o.command then
    some { s with pass := some pass, verified := none }
  else none

def Checkpoint.mapPass (s : Checkpoint) (f : Pass → Pass) : Checkpoint := { s with pass := s.pass.map f }

/-- The guards of `delete` before it verifies. -/
def mayDelete (o : Options) (s : Checkpoint) : Bool :=
  o.command = .delete && o.confirmDelete = some o.account && o.sourceQuiesced && s.initialized &&
    s.pass.any (·.done) && s.verified.isSome

/-- Two verifications that saw the same source. -/
def sameSource (a b : Tally) : Bool :=
  a.sourceDigest = b.sourceDigest && a.sourceCount = b.sourceCount

/-- How many rows one DELETE may take: the chunk size, the rest of the budget, and the 100 bindings of
    a statement bound it. -/
def maxRows (o : Options) (capacity : ℕ) : ℕ :=
  min (min o.chunkSize capacity) ((100 - 1) / emailColumns)

/-- The tally of what is left once the page is deleted. -/
def Tally.without (t : Tally) (page : List Row) : Tally :=
  { t with
    sourceCount := t.sourceCount - page.length
    sourceDigest := page.foldl (fun acc row => acc ^^^ digest row) t.sourceDigest }

/-! ### Runs -/

/-- Where a run stands, named after what it does next, with the local variables that it still uses. -/
inductive Pc where
  | idle
  | opened (o : Options) (s : Checkpoint)
  | copying (o : Options) (s : Checkpoint)
  | ingesting (o : Options) (s : Checkpoint) (page : List Row)
  | acknowledging (o : Options) (s : Checkpoint) (page : List Row)
  | finishing (o : Options) (s : Checkpoint)
  | stabilizing (o : Options) (s : Checkpoint) (first : Tally)
  | costing (o : Options) (s : Checkpoint)
  | deleting (o : Options) (s : Checkpoint) (cost : ℕ) (l : Ledger)
  | checking (o : Options) (s : Checkpoint) (cost : ℕ) (l : Ledger) (day : ℕ) (page : List Row)
  | reserved (o : Options) (s : Checkpoint) (cost : ℕ) (l : Ledger) (day : ℕ) (page : List Row)
      (used reservedAt : ℕ)
  | answered (o : Options) (s : Checkpoint) (cost : ℕ) (l : Ledger) (day : ℕ) (page : List Row)
      (used actual changes : ℕ)
  | settled (o : Options) (s : Checkpoint) (cost : ℕ) (l : Ledger) (page : List Row)

/-- What one DELETE removed a row against: the row, and the target at that moment. -/
structure Deletion where
  row : Row
  target : List Row

/-- The stores, the durable files, the clock and the one running process (a lock excludes others). The
    last two fields record what happened: the rows written at the source on each day, and the rows
    deleted there. -/
structure World where
  source : List Row
  target : List Row
  checkpoints : JsString → Option Checkpoint
  ledger : Option Ledger
  clock : ℕ
  pc : Pc
  written : ℕ → ℕ
  deletions : List Deletion

def World.today (w : World) : ℕ := w.clock / dayMs

/-- `store.save` of the checkpoint. -/
def World.save (w : World) (o : Options) (s : Checkpoint) : World :=
  { w with checkpoints := Function.update w.checkpoints o.stateFile (some s) }

/-- The ledger as a run loads it. -/
def World.stored (w : World) : Ledger := w.ledger.getD .empty

/-- A launch and a DELETE with the rows that it really writes are told apart from all other steps. -/
inductive Label where
  | launch (o : Options)
  | delete (actual : ℕ)
  | other

/-- Other accounts' rows may change in any way, the rows of quiesced accounts not at all. -/
def Undisturbed (quiesced : JsString → Prop) (rows rows' : List Row) : Prop :=
  ∀ row : Row, quiesced row.accountId → (row ∈ rows ↔ row ∈ rows')

/-- `INSERT OR IGNORE` of a page: a row is inserted only if its id is new. -/
def Ingested (target page target' : List Row) : Prop :=
  ∃ inserted : List Row, inserted.Sublist page ∧ (∀ row ∈ inserted, ∀ m ∈ target, m.id ≠ row.id) ∧
    target' = target ++ inserted

/-- One step of the world. -/
inductive Acts (digest : Row → BitVec 256) (quiesced : JsString → Prop) : World → Label → World → Prop
  | tick {w : World} (ms : ℕ) : Acts digest quiesced w .other { w with clock := w.clock + ms }
  | elsewhere {w : World} {source target : List Row} : Undisturbed quiesced w.source source →
      Undisturbed quiesced w.target target →
      Acts digest quiesced w .other { w with source := source, target := target }
  -- a crash, a cancellation, or an answer that is an error or is lost
  | crash {w : World} : Acts digest quiesced w .other { w with pc := .idle }
  | launch {w : World} {o : Options} {s : Checkpoint} : w.pc = .idle → quiesced o.account →
      loadCheckpoint o (w.checkpoints o.stateFile) = some s →
      Acts digest quiesced w (.launch o) { w with pc := .opened o s }
  | startCopy {w : World} {o : Options} {s s' : Checkpoint} : w.pc = .opened o s →
      startPass o s = some s' →
      Acts digest quiesced w .other { w.save o s' with pc := .copying o s' }
  | folderPage {w : World} {o : Options} {s : Checkpoint} {p : Pass} (cursor : ℕ) :
      w.pc = .copying o s → s.pass = some p → p.folders = true →
      Acts digest quiesced w .other
        { w.save o (s.mapPass fun p => { p with folderCursor := some cursor }) with
          pc := .copying o (s.mapPass fun p => { p with folderCursor := some cursor }) }
  | foldersDone {w : World} {o : Options} {s : Checkpoint} {p : Pass} :
      w.pc = .copying o s → s.pass = some p → p.folders = true →
      Acts digest quiesced w .other
        { w.save o (s.mapPass fun p => { p with folders := false }) with
          pc := .copying o (s.mapPass fun p => { p with folders := false }) }
  | readPage {w : World} {o : Options} {s : Checkpoint} {p : Pass} {page : List Row} :
      w.pc = .copying o s → s.pass = some p → p.folders = false →
      page = emailPage w.source o.account p.cursor o.chunkSize → page ≠ [] →
      (∀ row ∈ page, row.id ≠ []) →
      Acts digest quiesced w .other { w with pc := .ingesting o s page }
  | ingest {w : World} {o : Options} {s : Checkpoint} {page target : List Row} :
      w.pc = .ingesting o s page → Ingested w.target page target →
      Acts digest quiesced w .other { w with target := target, pc := .acknowledging o s page }
  | acknowledge {w : World} {o : Options} {s s' : Checkpoint} {page : List Row} {last : Row} :
      w.pc = .acknowledging o s page → verifyEmailChunk digest w.target page = true →
      page.getLast? = some last →
      s' = s.mapPass (fun p => { p with
        cursor := some (last.receivedAt, last.id), copied := p.copied + page.length }) →
      Acts digest quiesced w .other { w.save o s' with pc := .copying o s' }
  | copied {w : World} {o : Options} {s : Checkpoint} {p : Pass} :
      w.pc = .copying o s → s.pass = some p → p.folders = false →
      emailPage w.source o.account p.cursor o.chunkSize = [] →
      Acts digest quiesced w .other { w with pc := .finishing o s }
  | finishCopy {w : World} {o : Options} {s s' : Checkpoint} {t : Tally}
      (folders : Option (List (BitVec 256))) : w.pc = .finishing o s →
      verify digest w.source w.target o.account folders = some t →
      s' = { s.mapPass (fun p => { p with done := true }) with initialized := true } →
      Acts digest quiesced w .other { w.save o s' with pc := .idle }
  | count {w : World} {o : Options} {s : Checkpoint} : w.pc = .opened o s → o.command = .count →
      Acts digest quiesced w .other { w with pc := .idle }
  | verify {w : World} {o : Options} {s : Checkpoint} {t : Tally}
      (folders : Option (List (BitVec 256))) : w.pc = .opened o s → o.command = .verify →
      verify digest w.source w.target o.account folders = some t →
      Acts digest quiesced w .other { w.save o { s with verified := some t } with pc := .idle }
  | verifyFirst {w : World} {o : Options} {s : Checkpoint} {t first : Tally}
      (folders : Option (List (BitVec 256))) : w.pc = .opened o s → mayDelete o s = true →
      s.verified = some t → verify digest w.source w.target o.account folders = some first →
      sameSource first t = true →
      Acts digest quiesced w .other { w with pc := .stabilizing o s first }
  | verifyStable {w : World} {o : Options} {s : Checkpoint} {first stable : Tally}
      (folders : Option (List (BitVec 256))) : w.pc = .stabilizing o s first →
      verify digest w.source w.target o.account folders = some stable →
      sameSource stable first = true →
      Acts digest quiesced w .other { w with pc := .costing o s }
  -- the source has no trigger and no foreign key on `emails`: one write for the row, one for each index
  | startDelete {w : World} {o : Options} {s : Checkpoint} (indexes : ℕ) : w.pc = .costing o s →
      0 < indexes → w.stored.blocked = false →
      Acts digest quiesced w .other
        { w.save o { s with deletionStarted := true } with
          pc := .deleting o { s with deletionStarted := true } (1 + indexes) w.stored }
  | finishDelete {w : World} {o : Options} {s : Checkpoint} {cost : ℕ} {l : Ledger} {t final : Tally}
      (folders : Option (List (BitVec 256))) : w.pc = .deleting o s cost l → s.verified = some t →
      t.sourceCount = 0 → verify digest w.source w.target o.account folders = some final →
      sameSource final t = true →
      Acts digest quiesced w .other { w with pc := .idle }
  | choosePage {w : World} {o : Options} {s : Checkpoint} {cost : ℕ} {l : Ledger} {t : Tally}
      {capacity : ℕ} {page : List Row} : w.pc = .deleting o s cost l → s.verified = some t →
      t.sourceCount ≠ 0 → beforeMidnight o w.clock = true →
      capacity = (o.dailyBudget - l.days w.today) / cost → 0 < capacity →
      page = emailPage w.source o.account none (maxRows o capacity) → page ≠ [] →
      Acts digest quiesced w .other { w with pc := .checking o s cost l w.today page }
  | reserve {w : World} {o : Options} {s : Checkpoint} {cost : ℕ} {l : Ledger} {day : ℕ}
      {page : List Row} : w.pc = .checking o s cost l day page →
      verifyEmailChunk digest w.target page = true → w.today = day → beforeMidnight o w.clock = true →
      Acts digest quiesced w .other
        { w with
          ledger := some (l.set day (l.days day + page.length * cost))
          pc := .reserved o s cost (l.set day (l.days day + page.length * cost)) day page (l.days day)
            w.clock }
  -- no row goes while the account has an unresolved mutation job
  | delete {w : World} {o : Options} {s : Checkpoint} {cost : ℕ} {l : Ledger} {day : ℕ}
      {page gone : List Row} {used reservedAt : ℕ} (pendingJobs : Bool) (actual : ℕ) :
      w.pc = .reserved o s cost l day page used reservedAt →
      gone = (if pendingJobs then [] else
        w.source.filter fun row => emailScope o.account row && page.contains row) →
      Acts digest quiesced w (.delete actual)
        { w with
          source := deleteWhere (fun row => gone.contains row) w.source
          pc := .answered o s cost l day page used actual gone.length
          written := Function.update w.written w.today (w.written w.today + actual)
          deletions := gone.map (fun row => ⟨row, w.target⟩) ++ w.deletions }
  -- an answer without `rows_written` blocks the ledger
  | unaccounted {w : World} {o : Options} {s : Checkpoint} {cost : ℕ} {l : Ledger} {day : ℕ}
      {page : List Row} {used actual changes : ℕ} :
      w.pc = .answered o s cost l day page used actual changes →
      Acts digest quiesced w .other { w with ledger := some { l with blocked := true }, pc := .idle }
  | overspent {w : World} {o : Options} {s : Checkpoint} {cost : ℕ} {l : Ledger} {day : ℕ}
      {page : List Row} {used actual changes : ℕ} :
      w.pc = .answered o s cost l day page used actual changes → page.length * cost < actual →
      Acts digest quiesced w .other
        { w with ledger := some { l.set day (used + actual) with blocked := true }, pc := .idle }
  | settle {w : World} {o : Options} {s : Checkpoint} {cost : ℕ} {l : Ledger} {day : ℕ}
      {page : List Row} {used actual changes : ℕ} :
      w.pc = .answered o s cost l day page used actual changes → actual ≤ page.length * cost →
      Acts digest quiesced w .other
        { w with
          ledger := some (l.set day (used + actual))
          pc := if changes = page.length then .settled o s cost (l.set day (used + actual)) page
            else .idle }
  | record {w : World} {o : Options} {s s' : Checkpoint} {cost : ℕ} {l : Ledger} {page : List Row} :
      w.pc = .settled o s cost l page →
      s' = { s with verified := s.verified.map fun t => t.without digest page } →
      Acts digest quiesced w .other { w.save o s' with pc := .deleting o s' cost l }

/-- Any number of runs, one after the other, starting without a checkpoint and without a ledger. -/
def system (digest : Row → BitVec 256) (quiesced : JsString → Prop) : System World Label where
  init w := w.checkpoints = (fun _ => none) ∧ w.ledger = none ∧ w.pc = .idle ∧
    w.written = (fun _ => 0) ∧ w.deletions = []
  step := Acts digest quiesced

end OneMail.Backfill
