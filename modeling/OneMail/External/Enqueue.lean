import OneMail.Js.JsString
import OneMail.Lib.Interleave
import OneMail.Lib.Table

/-! `enqueueExternalSend` and the x-idempotency-key.

    A `Send` is a call that has passed its checks: account, reroute and payload are settled, and only
    the statements on `gmail_reroute_idempotency` and `outbound_mail_jobs` are left. `Call` is where it
    stands between two of them. The hash of a request is the hex SHA-256 of the JSON text of
    `canonicalSend`; the digest is a parameter. -/

namespace OneMail.External
open Interleave Table

structure OutboundPayload where
  fromAddr : JsString
  fromName : Option JsString
  toMail : JsString
  toName : Option JsString
  subject : JsString
  content : JsString
  isHtml : Bool
  inReplyTo : Option JsString
  references : Option (List JsString)
  replyToEmailId : Option JsString
  providerThreadId : Option JsString
  deriving DecidableEq

/-- The object whose JSON text `computeOutboundRequestHash` digests. -/
structure CanonicalSend where
  accountId : JsString
  fromAddr : JsString
  fromName : JsString
  toMail : JsString
  toName : JsString
  subject : JsString
  content : JsString
  isHtml : Bool
  inReplyTo : JsString
  references : List JsString
  replyToEmailId : JsString
  providerThreadId : JsString
  deriving DecidableEq

def canonicalSend (accountId : JsString) (payload : OutboundPayload) : CanonicalSend where
  accountId := accountId
  fromAddr := payload.fromAddr
  fromName := payload.fromName.getD []
  toMail := payload.toMail
  toName := payload.toName.getD []
  subject := payload.subject
  content := payload.content
  isHtml := payload.isHtml
  inReplyTo := payload.inReplyTo.getD []
  references := payload.references.getD []
  replyToEmailId := payload.replyToEmailId.getD []
  providerThreadId := payload.providerThreadId.getD []

/-- A call with its checks behind it. An empty key stands for no key. -/
structure Send where
  key : JsString
  accountId : JsString
  payload : OutboundPayload
  provider : JsString
  deriving DecidableEq

inductive OutboundStatus where | pending | processing | succeeded | failed | unsupported
  deriving DecidableEq

/-- The client-visible outcome of a job that already exists. -/
inductive ReplayStatus where | queued | alreadySent | failed | unsupported
  deriving DecidableEq

def replayStatus : OutboundStatus → ReplayStatus
  | .succeeded => .alreadySent
  | .failed => .failed
  | .unsupported => .unsupported
  | .pending | .processing => .queued

/-- A row of `gmail_reroute_idempotency`; `jobId` is empty until the job exists. -/
structure KeyRow where
  key : JsString
  requestHash : JsString
  jobId : JsString
  deriving DecidableEq

/-- A row of `outbound_mail_jobs`, with the columns the INSERT binds. -/
structure OutboundJob where
  id : JsString
  accountId : JsString
  fromAddr : JsString
  toAddr : JsString
  subject : JsString
  bodyText : Option JsString
  bodyHtml : Option JsString
  payload : OutboundPayload
  requestHash : JsString
  provider : JsString
  status : OutboundStatus
  deriving DecidableEq

structure Store where
  keys : List KeyRow
  jobs : List OutboundJob
  deriving DecidableEq

inductive Response where
  /-- `{ status, job_id }` -/
  | job (status : ReplayStatus) (jobId : JsString)
  /-- 409 -/
  | conflict
  /-- 410 -/
  | gone
  /-- Any error thrown out of the handler. -/
  | failed
  deriving DecidableEq

inductive Event where
  | queued (send : Send) (job : OutboundJob)
  | answered (send : Send) (response : Response)
  deriving DecidableEq

variable (digest : CanonicalSend → JsString)

/-- `computeOutboundRequestHash`. -/
def Send.requestHash (send : Send) : JsString := digest (canonicalSend send.accountId send.payload)

/-! ### Statements -/

def takeKey (send : Send) (keys : List KeyRow) : List KeyRow :=
  keys ++ [⟨send.key, send.requestHash digest, []⟩]

def lookupSendMailIdempotency (key : JsString) (keys : List KeyRow) : Option KeyRow :=
  keys.find? (·.key = key)

/-- Conditional, so a replayed call cannot overwrite an id another request filled in. -/
def completeSendMailIdempotency (key jobId : JsString) (keys : List KeyRow) : List KeyRow :=
  updateWhere (fun r => r.key = key && r.jobId = []) (fun r => { r with jobId := jobId }) keys

def releaseSendMailIdempotency (key : JsString) (keys : List KeyRow) : List KeyRow :=
  deleteWhere (fun r => r.key = key && r.jobId = []) keys

/-- `WHERE account_id = ? AND request_hash = ?`. -/
def sameRequest (send : Send) (job : OutboundJob) : Bool :=
  job.accountId = send.accountId && job.requestHash = send.requestHash digest

def newOutboundJob (id : JsString) (send : Send) : OutboundJob where
  id := id
  accountId := send.accountId
  fromAddr := send.payload.fromAddr
  toAddr := send.payload.toMail
  subject := send.payload.subject
  bodyText := if send.payload.isHtml then none else some send.payload.content
  bodyHtml := if send.payload.isHtml then some send.payload.content else none
  payload := send.payload
  requestHash := send.requestHash digest
  provider := send.provider
  status := .pending

def existingJobResponse (jobId : JsString) (status : Option OutboundStatus) : Response :=
  match status with
  | some status => .job (replayStatus status) jobId
  | none => .gone

/-! ### Calls -/

inductive Call where
  | idle
  | arrived (send : Send)
  /-- The INSERT of the key has failed; its row is read next. -/
  | lookingUp (send : Send)
  /-- The key is held, or there is no key; the job is looked for next. -/
  | reserved (send : Send) (owned : Bool)
  /-- The key already names a job. -/
  | replaying (send : Send) (jobId : JsString)
  /-- No such job yet; the INSERT of the job is next. -/
  | inserting (send : Send) (owned : Bool)
  /-- The INSERT of the job has failed; a concurrent winner is looked for next. -/
  | losing (send : Send) (owned : Bool)
  | releasing (send : Send)
  /-- The job exists; the key is completed next, then the call answers. -/
  | completing (send : Send) (status : ReplayStatus) (jobId : JsString)
  deriving DecidableEq

def Call.send : Call → Option Send
  | .idle => none
  | .arrived send | .lookingUp send | .reserved send _ | .replaying send _ | .inserting send _
  | .losing send _ | .releasing send | .completing send _ _ => some send

inductive SendStep : Store → Call → Store → Call → List Event → Prop
  | arrive {s} (send : Send) : SendStep s .idle s (.arrived send) []
  -- `reserveSendMailIdempotency`
  | noKey {s send} (h : send.key = []) : SendStep s (.arrived send) s (.reserved send false) []
  | take {s send} (h : send.key ≠ []) (hfree : ∀ r ∈ s.keys, r.key ≠ send.key) :
      SendStep s (.arrived send) { s with keys := takeKey digest send s.keys } (.reserved send true) []
  | takeFails {s send} (h : send.key ≠ []) : SendStep s (.arrived send) s (.lookingUp send) []
  | conflict {s send r} (h : lookupSendMailIdempotency send.key s.keys = some r)
      (hhash : r.requestHash ≠ send.requestHash digest) :
      SendStep s (.lookingUp send) s .idle [.answered send .conflict]
  | replay {s send r} (h : lookupSendMailIdempotency send.key s.keys = some r)
      (hhash : r.requestHash = send.requestHash digest) (hjob : r.jobId ≠ []) :
      SendStep s (.lookingUp send) s (.replaying send r.jobId) []
  | follow {s send r} (h : lookupSendMailIdempotency send.key s.keys = some r)
      (hhash : r.requestHash = send.requestHash digest) (hjob : r.jobId = []) :
      SendStep s (.lookingUp send) s (.reserved send false) []
  | answerReplay {s send jobId} :
      SendStep s (.replaying send jobId) s .idle
        [.answered send (existingJobResponse jobId ((s.jobs.find? (·.id = jobId)).map (·.status)))]
  -- the job
  | found {s send owned} (job : OutboundJob)
      (h : (s.jobs.filter (sameRequest digest send)).getLast? = some job) :
      SendStep s (.reserved send owned) s (.completing send (replayStatus job.status) job.id) []
  | absent {s send owned} (h : (s.jobs.filter (sameRequest digest send)).getLast? = none) :
      SendStep s (.reserved send owned) s (.inserting send owned) []
  | insert {s send owned} (id : JsString) (hid : id ≠ []) (hfresh : ∀ j ∈ s.jobs, j.id ≠ id)
      (hunique : ∀ j ∈ s.jobs, sameRequest digest send j = false) :
      SendStep s (.inserting send owned) { s with jobs := s.jobs ++ [newOutboundJob digest id send] }
        (.completing send .queued id) [.queued send (newOutboundJob digest id send)]
  | insertFails {s send owned} : SendStep s (.inserting send owned) s (.losing send owned) []
  | winner {s send owned} (job : OutboundJob) (h : s.jobs.find? (sameRequest digest send) = some job) :
      SendStep s (.losing send owned) s (.completing send (replayStatus job.status) job.id) []
  | noWinner {s send owned} (h : s.jobs.find? (sameRequest digest send) = none)
      (hown : send.key = [] ∨ owned = false) :
      SendStep s (.losing send owned) s .idle [.answered send .failed]
  | giveBack {s send} (h : s.jobs.find? (sameRequest digest send) = none) (hkey : send.key ≠ []) :
      SendStep s (.losing send true) s (.releasing send) []
  | release {s send} :
      SendStep s (.releasing send) { s with keys := releaseSendMailIdempotency send.key s.keys } .idle
        [.answered send .failed]
  | complete {s send status jobId} :
      SendStep s (.completing send status jobId)
        { s with keys := if send.key = [] then s.keys
            else completeSendMailIdempotency send.key jobId s.keys }
        .idle [.answered send (.job status jobId)]
  /-- A D1 error outside the two caught statements ends the call. -/
  | fail {s c send} (h : c.send = some send) : SendStep s c s .idle [.answered send .failed]
  /-- The aggregator moves a job along. -/
  | progress {s} (id : JsString) (status : OutboundStatus) :
      SendStep s .idle
        { s with jobs := updateWhere (·.id = id) (fun j => { j with status := status }) s.jobs } .idle []

def externalSend : Prog Store Call Event where
  idle := .idle
  init s := s = ⟨[], []⟩
  step := SendStep digest

end OneMail.External
