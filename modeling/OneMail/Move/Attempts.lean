import OneMail.Lib.Fallible
import OneMail.Lib.Transition
import OneMail.Move.Server

/-! The attempts of one move job (`_apply_imap_mutation` and the job loop of `mutation_jobs.py`).

    An attempt is a sequence of IMAP commands, each of which may fail; MOVE may fail before or after it takes
    effect. Which commands fail and how is a `Replies`. An attempt ends in a report, which may be lost; the next
    claim then numbers the next attempt. Operations other than move are left out. -/

namespace OneMail.Move
open Fallible

/-! ### Errors -/

/-- The classes of `imapclient`, `OSError` and `requests` that the code tells apart. -/
inductive ErrorKind where
  | abort
  | client
  | os
  | http (status : ℕ)
  | other
  deriving DecidableEq

structure ProviderError where
  kind : ErrorKind
  text : String
  deriving DecidableEq

inductive Raised where
  | unsupported (text : String)
  | identity (text : String)
  | outcomeUnknown (text : String)
  | unsafeTarget (text : String)
  | provider (e : ProviderError)
  deriving DecidableEq

/-- `str(error)`. -/
def Raised.text : Raised → String
  | .unsupported text | .identity text | .outcomeUnknown text | .unsafeTarget text => text
  | .provider e => e.text

def Raised.retryable : Raised → Bool
  | .outcomeUnknown _ => true
  | .provider e =>
    match e.kind with
    | .http status => status = 408 || status = 429 || 500 ≤ status
    | .abort | .os => true
    | .client | .other => false
  | _ => false

/-- `except (MutationIdentityError, IMAPClientError, OSError)`, once a MOVE may have taken effect. -/
def outcomeUnknown (e : Raised) : Raised :=
  match e with
  | .identity _ => .outcomeUnknown s!"IMAP MOVE outcome is unknown: {e.text}"
  | .provider p => if p.kind = .other then e else .outcomeUnknown s!"IMAP MOVE outcome is unknown: {e.text}"
  | _ => e

/-- A command that the server answers, unless it fails. -/
def command {α : Type} (fails : Option ProviderError) (answer : α) : Except Raised α :=
  match fails with
  | some e => .error (.provider e)
  | none => .ok answer

/-! ### The job and the answers of an attempt -/

structure Account where
  id : String
  host : String
  protocol : String
  userManaged : Bool

structure Job where
  provider : String
  sourceFolder : Option String
  sourceKey : Option String
  targetFolder : Option String
  messageIdHeader : Option String

/-- Python's `str.strip`, `str.lower` and `int`. -/
structure Platform where
  strip : String → String
  lower : String → String
  int : String → Option ℤ

inductive Command where
  | connect
  | capability (name : String)
  | selectAbsent | searchAbsent
  | selectSource | searchSource
  | selectRecover | searchRecover
  | selectTarget | searchTarget
  deriving DecidableEq

/-- A part of a UID set of a COPYUID response. -/
inductive UidRange where
  | one (uid : ℤ)
  | range (start stop : ℤ)

structure CopyUid where
  uidvalidity : ℤ
  sources : List UidRange
  destinations : List UidRange

/-- What becomes of the MOVE command. -/
inductive MoveReply where
  | fails (e : ProviderError) (applied : Bool)
  | answers (copyuid : Option CopyUid)

/-- The answers of one attempt: whether the account is there, the target guard of its host, and the commands. -/
structure Replies where
  account : Bool
  accountFetchFailed : Bool
  publicTarget : Option Raised
  fails : Command → Option ProviderError
  move : MoveReply

structure Projection where
  sourceFolder : String
  sourceFolderId : Option String
  sourceKey : String
  deriving DecidableEq

def makeImapUid (account : Account) (folder : String) (uidvalidity uid : ℤ) : String :=
  s!"{account.id}:{account.host}:{folder}:{uidvalidity}:{uid}"

def imapMoveProjection (account : Account) (target : String) (uidvalidity uid : ℤ) : Projection where
  sourceFolder := target
  sourceFolderId := none
  sourceKey := makeImapUid account target uidvalidity uid

variable (py : Platform)

/-- `str(job.get(..) or "").strip()`. -/
def text (field : Option String) : String := py.strip (field.getD "")

/-- `source_key.rsplit(":", 2)`, less the prefix. -/
def rsplit2 (key : String) : Option (String × String) :=
  match ((key.toList.splitOn ':').map String.ofList).reverse with
  | uid :: uidvalidity :: _ :: _ => some (uidvalidity, uid)
  | _ => none

def imapIdentity (job : Job) : Except Raised (String × ℤ × ℤ) :=
  let folder := text py job.sourceFolder
  let sourceKey := text py job.sourceKey
  if folder = "" ∨ sourceKey = "" then .error (.identity "missing IMAP folder/source_key")
  else match (rsplit2 sourceKey).bind fun raw => (py.int raw.1).bind fun uidvalidity =>
      (py.int raw.2).map fun uid => (uidvalidity, uid) with
    | none => .error (.identity "invalid IMAP source identity")
    | some (uidvalidity, uid) =>
      if uidvalidity ≤ 0 ∨ uid ≤ 0 then .error (.identity "invalid IMAP UIDVALIDITY/UID")
      else .ok (folder, uidvalidity, uid)

def requireImapCapability (replies : Replies) (server : Server) (capability : String) : Except Raised Unit := do
  let has ← command (replies.fails (.capability capability)) (server.hasCapability capability)
  throwIf (has = false) (.unsupported s!"IMAP server does not support required {capability} capability")

/-! ### COPYUID -/

def maxUidSetExpansion : ℕ := 1000

def UidRange.uids : UidRange → List ℤ
  | .one uid => [uid]
  | .range start stop =>
    if start ≤ stop then (List.range ((stop - start).toNat + 1)).map fun i => start + i
    else (List.range ((start - stop).toNat + 1)).map fun i => start - i

def expandPart (out : List ℤ) (part : UidRange) : Except Raised (List ℤ) := do
  throwIf (maxUidSetExpansion < (out ++ part.uids).length) (.identity "IMAP COPYUID response is unexpectedly large")
  return out ++ part.uids

def expandUidSet (parts : List UidRange) : Except Raised (List ℤ) := do
  let out ← parts.foldlM expandPart []
  throwIf (out.any (· ≤ 0)) (.identity "IMAP COPYUID contains invalid UID")
  return out

def parseCopyuid (response : Option CopyUid) (sourceUid : ℤ) : Except Raised (Option (ℤ × ℤ)) :=
  match response with
  | none => return none
  | some copyuid => do
    let sourceUids ← expandUidSet copyuid.sources
    let destinationUids ← expandUidSet copyuid.destinations
    throwIf (copyuid.uidvalidity ≤ 0 ∨ sourceUids.length ≠ destinationUids.length)
      (.identity "invalid IMAP COPYUID mapping")
    throwIf (sourceUid ∉ sourceUids) (.identity "IMAP COPYUID omitted moved source UID")
    return (destinationUids[sourceUids.idxOf sourceUid]?).map fun uid => (copyuid.uidvalidity, uid)

/-! ### One attempt -/

def imapTargetMessageMatches (job : Job) (target : String) (select search : Option ProviderError) (server : Server) :
    Except Raised (ℤ × List ℤ) := do
  let messageId := text py job.messageIdHeader
  throwIf (messageId = "") (.identity "IMAP move recovery requires Message-ID")
  let uidvalidity ← command select (server.folders target).uidvalidity
  throwIf (uidvalidity ≤ 0) (.identity "invalid target IMAP UIDVALIDITY")
  let found ← command search ((server.folders target).searchMessageId messageId)
  throwIf (found.any (· ≤ 0)) (.identity "invalid target IMAP UID")
  return (uidvalidity, found)

def imapRecoverMovedMessage (job : Job) (target : String) (replies : Replies) (server : Server) :
    Except Raised (ℤ × ℤ) := do
  let (uidvalidity, found) ← imapTargetMessageMatches py job target (replies.fails .selectRecover)
    (replies.fails .searchRecover) server
  match found with
  | [uid] => return (uidvalidity, uid)
  | _ => throw (.identity
      s!"IMAP move recovery expected exactly one target Message-ID match, found {found.length}")

def imapAssertMoveTargetAbsent (job : Job) (target : String) (replies : Replies) (server : Server) :
    Except Raised Unit := do
  let (_, found) ← imapTargetMessageMatches py job target (replies.fails .selectAbsent)
    (replies.fails .searchAbsent) server
  throwIf (found ≠ [])
    (.identity s!"IMAP move target already contains {found.length} matching Message-ID message(s)")

/-- What a move job names: the source identity and the target folder. -/
structure Source where
  folder : String
  uidvalidity : ℤ
  uid : ℤ
  target : String
  deriving DecidableEq

/-- `_apply_imap_mutation` up to the checks of the capabilities. -/
def prepare (account : Account) (job : Job) (replies : Replies) (server : Server) : Except Raised Source := do
  throwIf (py.lower job.provider = "pop3" ∨ account.protocol = "pop3")
    (.unsupported "POP3 has no safe provider write-back semantics")
  let (folder, uidvalidity, uid) ← imapIdentity py job
  command (replies.fails .connect) ()
  let target := text py job.targetFolder
  throwIf (target = "") (.identity "IMAP move missing target folder")
  throwIf (text py job.messageIdHeader = "") (.identity "IMAP move requires Message-ID for retry recovery")
  requireImapCapability replies server "MOVE"
  requireImapCapability replies server "UIDPLUS"
  return ⟨folder, uidvalidity, uid, target⟩

/-- Where an attempt finds the message: at the source, or moved by an attempt before. -/
inductive Located where
  | present
  | recovered (uidvalidity uid : ℤ)

/-- A message that is not at the source: a first attempt fails, a later one looks for it in the target. -/
def recover (job : Job) (source : Source) (attempts : ℕ) (replies : Replies) (server : Server) :
    Except Raised Located :=
  if 1 < attempts then
    match imapRecoverMovedMessage py job source.target replies server with
    | .error e => .error (outcomeUnknown e)
    | .ok (uidvalidity, uid) => .ok (.recovered uidvalidity uid)
  else .error (.identity s!"IMAP UID {source.uid} no longer exists in folder {repr source.folder}")

/-- From the capabilities to the MOVE. -/
def locate (job : Job) (source : Source) (attempts : ℕ) (replies : Replies) (server : Server) :
    Except Raised Located := do
  (if attempts = 1 then imapAssertMoveTargetAbsent py job source.target replies server else .ok ())
  let current ← command (replies.fails .selectSource) (server.folders source.folder).uidvalidity
  let message := s!"IMAP UIDVALIDITY changed: expected={source.uidvalidity} current={current}"
  throwIf (current ≠ source.uidvalidity)
    (if 1 < attempts then .outcomeUnknown s!"IMAP MOVE outcome is unknown: {message}" else .identity message)
  let found ← command (replies.fails .searchSource) ((server.folders source.folder).searchUid source.uid)
  if source.uid ∈ found then .ok .present else recover py job source attempts replies server

/-- What the code makes of the answer to a MOVE that was acknowledged. -/
def confirm (job : Job) (uid : ℤ) (target : String) (copyuid : Option CopyUid) (replies : Replies) (server : Server) :
    Except Raised (ℤ × ℤ) := do
  match ← parseCopyuid copyuid uid with
  | none => imapRecoverMovedMessage py job target replies server
  | some (destinationUidvalidity, destinationUid) =>
    let actual ← command (replies.fails .selectTarget) (server.folders target).uidvalidity
    throwIf (actual ≠ destinationUidvalidity)
      (.identity "IMAP MOVE COPYUID target UIDVALIDITY does not match selected destination")
    let found ← command (replies.fails .searchTarget) ((server.folders target).searchUid destinationUid)
    throwIf (destinationUid ∉ found) (.identity "IMAP MOVE destination UID does not exist after MOVE")
    return (destinationUidvalidity, destinationUid)

/-- The result of an attempt: the server after it, whether it issued MOVE, and what was returned or raised. -/
structure Attempt where
  server : Server
  issued : Bool
  result : Except Raised Projection

/-- `_apply_imap_mutation` for a move. -/
def applyImapMutation (account : Account) (job : Job) (attempts : ℕ) (replies : Replies) (server : Server) : Attempt :=
  match prepare py account job replies server with
  | .error e => ⟨server, false, .error e⟩
  | .ok source =>
    match locate py job source attempts replies server with
    | .error e => ⟨server, false, .error e⟩
    | .ok (.recovered uidvalidity uid) =>
      ⟨server, false, .ok (imapMoveProjection account source.target uidvalidity uid)⟩
    | .ok .present =>
      let after := server.move source.folder source.uid source.target
      match replies.move with
      | .fails e applied => ⟨if applied then after else server, true, .error (outcomeUnknown (.provider e))⟩
      | .answers copyuid =>
        match confirm py job source.uid source.target copyuid replies after with
        | .error e => ⟨after, true, .error (outcomeUnknown e)⟩
        | .ok (uidvalidity, uid) => ⟨after, true, .ok (imapMoveProjection account source.target uidvalidity uid)⟩

/-! ### The job loop -/

inductive Status where
  | succeeded | failed | retry | unsupported
  deriving DecidableEq

structure Report where
  status : Status
  error : Option String
  retryAfterMs : Option ℕ
  projection : Option Projection
  deriving DecidableEq

/-- The `except` clauses of the loop. -/
def failureReport (attempts : ℕ) (e : Raised) : Report :=
  match e with
  | .unsupported text => ⟨.unsupported, some text, none, none⟩
  | .identity text | .unsafeTarget text => ⟨.failed, some text, none, none⟩
  | e =>
    if e.retryable then ⟨.retry, some e.text, some (min 300000 (5000 * 2 ^ (attempts - 1))), none⟩
    else ⟨.failed, some e.text, none, none⟩

structure Processed where
  server : Server
  issued : Bool
  report : Report

/-- A turn of the job loop of `process_mutation_jobs`. -/
def processJob (account : Account) (job : Job) (attempts : ℕ) (replies : Replies) (server : Server) : Processed :=
  if replies.account = false then
    let status := if replies.accountFetchFailed then Status.retry else .failed
    ⟨server, false, status, some "mail account configuration unavailable",
      if replies.accountFetchFailed then some 5000 else none, none⟩
  else match if account.userManaged then replies.publicTarget else none with
    | some e => ⟨server, false, failureReport attempts e⟩
    | none =>
      if py.lower job.provider ≠ "imap" then
        ⟨server, false, failureReport attempts (.unsupported s!"unsupported mutation provider: {repr job.provider}")⟩
      else
        let attempt := applyImapMutation py account job attempts replies server
        match attempt.result with
        | .error e => ⟨attempt.server, attempt.issued, failureReport attempts e⟩
        | .ok projection => ⟨attempt.server, attempt.issued, .succeeded, none, none, some projection⟩

/-! ### All attempts -/

inductive Event where
  | issued
  | reported (r : Report)
  deriving DecidableEq

/-- `start` is the server as the job found it; `claims` numbers the attempts. -/
structure World where
  start : Server
  server : Server
  claims : ℕ
  closed : Bool
  events : List Event

/-- A claim whose job is not executed, or an attempt whose report arrives or is lost. -/
inductive Label where
  | lost
  | attempt (replies : Replies) (delivered : Bool)

def Status.terminal : Status → Bool
  | .retry => false
  | _ => true

/-- The world after an attempt. -/
def World.after (w : World) (p : Processed) (delivered : Bool) : World where
  start := w.start
  server := p.server
  claims := w.claims + 1
  closed := delivered && p.report.status.terminal
  events := w.events ++ (if p.issued then [.issued] else []) ++ [.reported p.report]

/-- COPYUID, if the server sends it, names the message that was moved. -/
def MoveReply.Truthful (reply : MoveReply) (source : Source) (server : Server) : Prop :=
  ∀ copyuid, reply = .answers (some copyuid) → copyuid.uidvalidity = (server.folders source.target).uidvalidity ∧
    expandUidSet copyuid.sources = .ok [source.uid] ∧
    expandUidSet copyuid.destinations = .ok [(server.folders source.target).uidnext]

inductive Step (account : Account) (job : Job) : World → Label → World → Prop
  | lost {w} (h : w.closed = false) : Step account job w .lost { w with claims := w.claims + 1 }
  | attempt {w} (replies : Replies) (delivered : Bool) (h : w.closed = false)
      (hcopyuid : ∀ source, prepare py account job replies w.server = .ok source →
        replies.move.Truthful source w.server) :
      Step account job w (.attempt replies delivered)
        (w.after (processJob py account job (w.claims + 1) replies w.server) delivered)

def attempts (account : Account) (job : Job) : Transition.System World Label where
  init w := w.server = w.start ∧ w.start.moves = [] ∧ w.claims = 0 ∧ w.closed = false ∧ w.events = []
  step := Step py account job

/-! ### What is asked -/

/-- The message at the source identity of the job. -/
def origin (job : Job) (s : Server) : Option Row :=
  match imapIdentity py job with
  | .ok (folder, uidvalidity, uid) =>
    if (s.folders folder).uidvalidity = uidvalidity then (s.folders folder).row uid else none
  | .error _ => none

/-- Every success names where the message is that was at the source identity when the job began. -/
def Truthful (account : Account) (job : Job) (w : World) : Prop :=
  ∀ r, .reported r ∈ w.events → r.status = .succeeded →
    ∃ row row', origin py job w.start = some row ∧
      row' ∈ (w.server.folders (text py job.targetFolder)).rows ∧ row'.message = row.message ∧
      r.projection = some (imapMoveProjection account (text py job.targetFolder)
        (w.server.folders (text py job.targetFolder)).uidvalidity row'.uid)

/-- No failure is reported for good once a MOVE was issued. -/
def NoneFailed (events : List Event) : Prop :=
  events.Pairwise fun before event => before = .issued → ∀ r, event = .reported r →
    r.status ≠ .failed ∧ r.status ≠ .unsupported

/-! ### When it holds -/

/-- When the job begins, its source identity holds a message with its Message-ID, or the target does not hold
    exactly one (or the UIDVALIDITY has changed). -/
def Sourced (job : Job) (start : Server) : Prop :=
  ∀ folder uidvalidity uid, imapIdentity py job = .ok (folder, uidvalidity, uid) →
    (start.folders folder).uidvalidity = uidvalidity →
    (∃ row, (start.folders folder).row uid = some row ∧ row.messageId = text py job.messageIdHeader) ∨
      ((start.folders (text py job.targetFolder)).searchMessageId (text py job.messageIdHeader)).length ≠ 1

/-- What fails after a MOVE fails with one of the errors that the recovery expects. -/
def Replies.Expected (replies : Replies) : Prop :=
  (∀ e applied, replies.move = .fails e applied → e.kind ≠ .other) ∧
    ∀ c ∈ [Command.selectRecover, .searchRecover, .selectTarget, .searchTarget], ∀ e, replies.fails c = some e → e.kind ≠ .other

/-- What fails before the MOVE fails with an error that is tried again. -/
def Replies.Retried (replies : Replies) (account : Account) : Prop :=
  (replies.account = false → replies.accountFetchFailed = true) ∧
    (account.userManaged = true → ∀ e, replies.publicTarget = some e → e.retryable = true) ∧
    ∀ c ∈ [Command.connect, .capability "MOVE", .capability "UIDPLUS", .selectSource, .searchSource],
      ∀ e, replies.fails c = some e → (Raised.provider e).retryable = true

def Harmless (account : Account) (w : World) : Label → Prop
  | .lost => True
  | .attempt replies _ => replies.Expected ∧ (.issued ∈ w.events → replies.Retried account)

end OneMail.Move
