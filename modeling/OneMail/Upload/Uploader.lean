import OneMail.Lib.Chunks
import OneMail.Lib.Grouping
import OneMail.Lib.Retry
import OneMail.Upload.Config

/-! How the aggregator uploads mail and folders (`uploader.py`).

    Rows are grouped by their destination and posted chunk by chunk; before a chunk of mail the contents of
    its attachments are put. Every request and its answer is kept in a log, so what reaches which server is
    read off the log. The pauses between two tries are left out. -/

namespace OneMail.Upload
open Retry

/-- What Python makes of the values in a body: `int`, the texts among them, and
    `datetime.fromisoformat(value.replace("Z", "+00:00"))` with the offset from UTC and the timestamp. -/
structure Python (V : Type) where
  int : V → Option ℤ
  text : V → Option String
  fromisoformat : String → Option (Option ℤ × ℚ)

/-- The body of a response, and what `response.json()` makes of it. -/
inductive Body (V : Type)
  | notJson
  | other
  | dict (get : String → Option V)

inductive Reply (V : Type)
  | raised
  | answered (status : ℕ) (body : Body V)

/-- A reply, and `time.time()` when it is there. -/
structure Answer (V : Type) where
  reply : Reply V
  now : ℚ

/-! ### Rows and requests -/

abbrev Bytes := List UInt8

/-- A part of `_attachment_payloads`. Its content is absent here if it is not bytes. -/
structure Payload where
  id : Option String
  name : Option String
  mimeType : Option String
  content : Option Bytes

structure Metadata where
  id : String
  name : String
  size : ℕ
  mimeType : String
  storageKey : String
  deriving DecidableEq

/-- A row, with the columns the uploader does not look at as `C`. -/
structure Row (C : Type) where
  source : Option String
  accountId : Option String
  id : Option String
  columns : C
  payloads : Option (List Payload)
  attachmentsJson : Option (List Metadata)
  hasAttachments : Option ℕ

/-- What identifies an attachment, and what is sent of it. -/
structure Put where
  accountId : String
  emailId : String
  attachmentId : String
  name : String
  mimeType : String
  content : Bytes
  shardScope : Option String

inductive Request (C : Type)
  | ingest (destination : WorkerDestination) (rows : List (Row C))
  | attachment (destination : WorkerDestination) (put : Put)

def Request.destination {C : Type} : Request C → WorkerDestination
  | .ingest destination _ => destination
  | .attachment destination _ => destination

inductive Kind
  | emails
  | folders
  deriving DecidableEq

def Kind.text : Kind → String
  | .emails => "emails"
  | .folders => "folders"

/-! ### Answers -/

/-- The keys of `totals`. -/
inductive Counter
  | inserted
  | skipped
  | foldersUpserted
  deriving DecidableEq

abbrev Counts := Counter → ℤ

inductive Cause
  | exception
  | http (status : ℕ)
  | quota (code : String) (retryAt : ℚ)
  | tooLarge
  | badStorageKey

/-- A failure with its context. -/
structure Failure where
  context : String
  cause : Option Cause

variable {V C : Type} (py : Python V)

/-- `int(payload.get(key, default))` -/
def readCount (get : String → Option V) (key : String) (default : ℤ) : Option ℤ :=
  match get key with
  | none => some default
  | some v => py.int v

/-- The counters of a body, for a chunk of so many rows. Without a dictionary `payload.get` raises. -/
def readCounts (kind : Kind) (rows : ℕ) : Body V → Option Counts
  | .dict get => match kind with
    | .emails => do
      let inserted ← readCount py get "inserted" 0
      let skipped ← readCount py get "skipped" 0
      return fun
        | .inserted => inserted
        | .skipped => skipped
        | .foldersUpserted => 0
    | .folders => do
      let folders ← readCount py get "folders_upserted" rows
      return fun
        | .foldersUpserted => folders
        | _ => 0
  | _ => none

/-- `database_quota_error` -/
def databaseQuotaError (status : ℕ) (body : Body V) (now : ℚ) : Option Cause :=
  if status ≠ 503 then none
  else match body with
    | .dict get => do
      let code ← (get "code").bind py.text
      if code ∉ ["D1_DAILY_READ_LIMIT", "D1_DAILY_WRITE_LIMIT"] then none
      let value ← (get "retry_at").bind py.text
      let (offset, reset) ← py.fromisoformat value
      if offset ≠ some 0 then none
      if reset > now + 86400 then none
      return .quota code (max (now + 1) reset)
    | _ => none

/-- One try of the POST. -/
def judgeIngest (kind : Kind) (rows : ℕ) (a : Answer V) : Verdict Counts Cause :=
  match a.reply with
  | .raised => .again .exception
  | .answered status body =>
    if status = 200 then
      match readCounts py kind rows body with
      | some counts => .accept counts
      | none => .again .exception
    else
      match databaseQuotaError py status body a.now with
      | some quota => .stop quota
      | none => .again (.http status)

/-- One try of the PUT. -/
def judgePut (a : Answer V) : Verdict (Body V) Cause :=
  match a.reply with
  | .raised => .again .exception
  | .answered status body =>
    if status = 200 then .accept body
    else
      match databaseQuotaError py status body a.now with
      | some quota => .stop quota
      | none => .again (.http status)

/-! ### Attachments -/

/-- How an upload of attachments is broken off: with failures, or with a `ValueError`. -/
inductive Abort
  | batch (failure : Failure)
  | valueError

/-- `STORAGE_KEY_RE.fullmatch` -/
def isStorageKey (s : String) : Bool :=
  "unified/".toList.isPrefixOf s.toList && (s.toList.drop 8).length = 43 &&
    (s.toList.drop 8).all fun c => c.isAlphanum || c = '_' || c = '-'

/-- `value or fallback` -/
def orText (value : Option String) (fallback : String) : String :=
  match value with
  | none => fallback
  | some text => if text = "" then fallback else text

def safeHeader (value : Option String) (fallback : String) : String :=
  let text := ((orText value fallback).toList.map fun c => if 0x20 ≤ c.toNat ∧ c.toNat ≤ 0x7e then c else '_').take 255
  if text = [] then fallback else String.ofList text

def maxAttachment : ℕ := 30 * 1024 * 1024

/-- The request for a payload of a row. -/
def putOf (destination : WorkerDestination) (row : Row C) (payload : Payload) (content : Bytes) : Put where
  accountId := orText row.accountId ""
  emailId := orText row.id ""
  attachmentId := orText payload.id ""
  name := safeHeader payload.name "attachment"
  mimeType := safeHeader payload.mimeType "application/octet-stream"
  content := content
  shardScope := if destination.apiPrefix = "/shard" then some (orText row.accountId "") else none

def metadataOf (payload : Payload) (content : Bytes) (storageKey : String) : Metadata where
  id := orText payload.id ""
  name := orText payload.name "attachment"
  size := content.length
  mimeType := orText payload.mimeType "application/octet-stream"
  storageKey := storageKey

/-- The key in a reply that was accepted. -/
def storageKeyOf : Body V → Except Cause String
  | .notJson => .error .exception
  | .other => .error .badStorageKey
  | .dict get => match (get "storage_key").bind py.text with
    | some key => if isStorageKey key then .ok key else .error .badStorageKey
    | none => .error .badStorageKey

variable (answer : ℕ → Answer V) (maxRetries : ℕ)

/-- The body of the loop over the payloads of a row. -/
def storePayload (destination : WorkerDestination) (row : Row C) (payload : Payload) :
    Effect (Request C) (Answer V) Abort Metadata := fun log =>
  match payload.content with
  | none => (.error .valueError, log)
  | some content =>
    let put := putOf destination row payload content
    if put.attachmentId = "" ∨ put.accountId = "" ∨ put.emailId = "" then (.error .valueError, log)
    else
      let failed (cause : Option Cause) : Abort :=
        .batch ⟨destination.id ++ ": attachment " ++ put.attachmentId, cause⟩
      if maxAttachment < content.length then (.error (failed (some .tooLarge)), log)
      else
        match attempts answer (judgePut py) (.attachment destination put) maxRetries none log with
        | (.error cause, log) => (.error (failed cause), log)
        | (.ok body, log) =>
          match storageKeyOf py body with
          | .error cause => (.error (failed (some cause)), log)
          | .ok key => (.ok (metadataOf payload content key), log)

/-- The body of the loop over the rows. -/
def storePayloads (destination : WorkerDestination) (row : Row C) :
    Effect (Request C) (Answer V) Abort (Row C) := fun log =>
  match row.payloads with
  | none => (.ok row, log)
  | some payloads =>
    match each (storePayload py answer maxRetries destination row) payloads log with
    | (.error e, log) => (.error e, log)
    | (.ok metadata, log) => (.ok { row with
        payloads := none
        attachmentsJson := some metadata
        hasAttachments := some (if metadata = [] then 0 else 1) }, log)

def uploadAttachmentPayloads (destination : WorkerDestination) (rows : List (Row C)) :
    Effect (Request C) (Answer V) Abort (List (Row C)) :=
  each (storePayloads py answer maxRetries destination) rows

/-! ### Uploads -/

structure State (C V : Type) where
  log : Log (Request C) (Answer V)
  totals : Counts
  failures : List Failure

/-- How a loop goes on: with the next item, not at all, or with a `ValueError` to the caller. -/
inductive Flow
  | next
  | leave
  | raised
  deriving DecidableEq

variable (kind : Kind)

/-- The rows of a chunk as they are posted. -/
def prepare (destination : WorkerDestination) (chunk : List (Row C)) :
    Effect (Request C) (Answer V) Abort (List (Row C)) :=
  match kind with
  | .emails => uploadAttachmentPayloads py answer maxRetries destination chunk
  | .folders => fun log => (.ok chunk, log)

def uploadChunk (destination : WorkerDestination) (chunk : List (Row C)) (s : State C V) : State C V × Flow :=
  match prepare py answer maxRetries kind destination chunk s.log with
  | (.error .valueError, log) => ({ s with log := log }, .raised)
  | (.error (.batch failure), log) => ({ s with log := log, failures := s.failures ++ [failure] }, .leave)
  | (.ok rows, log) =>
    match attempts answer (judgeIngest py kind rows.length) (.ingest destination rows) maxRetries none log with
    | (.ok counts, log) => ({ s with log := log, totals := s.totals + counts }, .next)
    | (.error cause, log) =>
      let context := destination.id ++ ": " ++ toString rows.length ++ " " ++ kind.text
      ({ s with log := log, failures := s.failures ++ [⟨context, cause⟩] }, .leave)

def uploadChunks (destination : WorkerDestination) : List (List (Row C)) → State C V → State C V × Bool
  | [], s => (s, false)
  | chunk :: chunks, s =>
    match uploadChunk py answer maxRetries kind destination chunk s with
    | (s, .next) => uploadChunks destination chunks s
    | (s, .leave) => (s, false)
    | (s, .raised) => (s, true)

def uploadGroups (chunkSize : ℕ) : List (WorkerDestination × List (Row C)) → State C V → State C V × Bool
  | [], s => (s, false)
  | (destination, batch) :: groups, s =>
    match uploadChunks py answer maxRetries kind destination (Chunks.chunks chunkSize batch) s with
    | (s, true) => (s, true)
    | (s, false) => uploadGroups chunkSize groups s

inductive Outcome
  | totals (totals : Counts)
  | batchError (failures : List Failure) (totals : Counts)
  | valueError

def destinationOf (config : Config) (row : Row C) : WorkerDestination :=
  config.destinationFor row.source row.accountId

/-- `_upload`, from the log of what was sent before. -/
def upload (config : Config) (chunkSize : ℕ) (rows : List (Row C)) (log : Log (Request C) (Answer V)) :
    Outcome × Log (Request C) (Answer V) :=
  if maxRetries < 1 ∨ chunkSize < 1 then (.valueError, log)
  else
    match uploadGroups py answer maxRetries kind chunkSize (Grouping.group (destinationOf config) rows)
        ⟨log, 0, []⟩ with
    | (s, true) => (.valueError, s.log)
    | (s, false) => (if s.failures = [] then .totals s.totals else .batchError s.failures s.totals, s.log)

/-- `quota_retry_at` of what an upload raised. -/
def quotaRetryAt : Outcome → Option ℚ
  | .batchError failures _ => (failures.filterMap fun f => match f.cause with
      | some (.quota _ retryAt) => some retryAt
      | _ => none).max?
  | _ => none

end OneMail.Upload
