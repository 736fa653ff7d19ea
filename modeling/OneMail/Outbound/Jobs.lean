import OneMail.Lib.Transition
import OneMail.Outbound.Senders

/-! Outbound jobs and the mailbox they are sent through.

    The Worker leases a pending job to the aggregator, which executes it and reports an outcome; a
    `retry` puts it back until its attempts are used up. One attempt (claim, execution, accepted
    report) is one step of a run, among the attempts of other jobs of the account. The provider's
    mailbox keeps every message it has committed; a message may be committed whenever the sending
    command was issued, whatever the command answers. The search of the Sent folder may fail, and if
    it answers it shows the committed messages. -/

namespace OneMail.Outbound

/-- `MAX_ATTEMPTS` of the Worker. -/
def maxAttempts : ℕ := 5

/-- What the provider keeps of a message. -/
structure Delivery where
  uid : ℕ
  imap : FetchData
  graph : GraphItem
  deriving DecidableEq

/-- A committed message; `job` is `none` for one that was not sent by a job. -/
structure Entry where
  job : Option ℕ
  subject : String
  delivery : Delivery

/-- What the network and the provider do in one attempt. -/
structure Script where
  /-- `assert_public_user_account` -/
  publicTarget : Except Raised Unit
  smtp : SmtpCalls
  oauth : OauthCalls
  imap : ImapCalls
  graph : GraphCalls
  /-- The time of the reconciliation. -/
  now : ℤ
  /-- What the provider commits if the sending command is issued. -/
  commits : Option Delivery

/-- The folder in which an uncertain message is looked for. -/
inductive Folder
  | imap
  | graph
  deriving DecidableEq

section
variable (py : Python)

/-! ### The aggregator -/

/-- The sender that `execute_outbound` picks for the account, after its checks. -/
def dispatch (account : Account) (payload : Payload) (script : Script) : Except Raised (Sending × Folder) :=
  let source := account.sourceName py
  if payload.toAddr = "" then .error ⟨.identity, "outbound job has no recipient address"⟩
  else if payload.fromAddr = "" then .error ⟨.identity, "outbound job has no from address"⟩
  else if py.lower (py.strip payload.fromAddr) ≠ py.lower (py.strip account.username) then
    .error ⟨.identity, s!"outbound job from address {payload.fromAddr} does not match account {account.id}"⟩
  else if source ∈ ["imap_qq", "imap_163", "imap_custom"] then .ok (sendSmtpMessage account script.smtp, .imap)
  else if source ∈ ["imap_gmail", "imap_outlook", "msa"] then
    if account.oauth.isSome then .ok (sendOutboundOauth py account payload script.oauth, .imap)
    else .ok (sendSmtpMessage account script.smtp, .imap)
  else if source = "graph_outlook" then .ok (sendOutboundOauth py account payload script.oauth, .graph)
  else .error ⟨.unsupported, s!"unknown outbound provider for account {account.id} (source={source})"⟩

/-- The messages of the Sent folder that pass for the one of the job. -/
def sentMatches (account : Account) (payload : Payload) (script : Script) : Folder → Except Raised (List String)
  | .imap =>
    match sentFolderMatches py account payload script.now script.imap with
    | .ok found => .ok (found.map toString)
    | .error e => .error (reconcileFailed account e)
  | .graph => graphSentMatches py account payload script.now script.graph

def reconcile (account : Account) (payload : Payload) (script : Script) : Folder → Except Raised (Option String)
  | .imap => reconcileSentFolder py account payload script.now script.imap
  | .graph => reconcileGraphSent py account payload script.now script.graph

/-- The sending that an attempt comes to, if its checks pass. -/
def sendingOf (account : Account) (payload : Payload) (script : Script) : Except Raised (Sending × Folder) :=
  (if account.userManaged then script.publicTarget else .ok ()).bind fun _ => dispatch py account payload script

/-- `execute_outbound`, with the guard before it. -/
def executeOutbound (account : Account) (payload : Payload) (script : Script) : Except Raised (Option String) :=
  (sendingOf py account payload script).bind fun p =>
    afterReconcile p.1 (reconcile py account payload script p.2)

end

/-- `_retryable` -/
def Kind.retryable : Kind → Bool
  | .outcomeUnknown | .reconcile => true
  | .http status => status == 408 || status == 429 || decide (500 ≤ status)
  | .timeout | .connection | .request | .os | .imapAbort => true
  | .imapClient | .unsupported | .identity | .send | .unsafeTarget | .other => false

inductive Status
  | succeeded
  | failed
  | unsupported
  | retry
  deriving DecidableEq

structure Report where
  status : Status
  error : Option String
  retryAfterMs : Option ℕ
  providerMessageId : Option String
  deriving DecidableEq

/-- The report on an execution. -/
def reportOf (attempts : ℕ) : Except Raised (Option String) → Report
  | .ok id => ⟨.succeeded, none, none, id.filter (· ≠ "")⟩
  | .error e =>
    match e.kind with
    | .unsupported => ⟨.unsupported, some e.text, none, none⟩
    | .identity | .send | .unsafeTarget => ⟨.failed, some e.text, none, none⟩
    | kind =>
      if kind.retryable then
        ⟨.retry, some e.text, some (min 300000 (5000 * 2 ^ (max 1 attempts - 1))), none⟩
      else ⟨.failed, some e.text, none, none⟩

/-- The body of the loop of `process_outbound_jobs`. -/
def processJob (py : Python) (account : Option Account) (accountFetchFailed : Bool) (attempts : ℕ)
    (payload : Payload) (script : Script) : Report :=
  match account with
  | none =>
    if accountFetchFailed then ⟨.retry, some "mail account configuration unavailable", some 5000, none⟩
    else ⟨.failed, some "mail account configuration unavailable", none, none⟩
  | some account =>
    if account.canSend = false then
      ⟨.unsupported, some "account has not been enabled for sending (can_send)", none, none⟩
    else reportOf attempts (executeOutbound py account payload script)

/-! ### The Worker's queue -/

inductive JobStatus
  | pending
  | succeeded
  | failed
  | unsupported
  deriving DecidableEq

/-- `reportOutboundResult` under a live lease; `attempts` counts the claims. -/
def reportOutboundResult (attempts : ℕ) : Status → JobStatus
  | .succeeded => .succeeded
  | .failed => .failed
  | .unsupported => .unsupported
  | .retry => if maxAttempts ≤ attempts then .failed else .pending

structure JobRow where
  payload : Payload
  status : JobStatus
  attempts : ℕ

/-! ### Runs -/

/-- What an attempt did, as its outcome and the provider's mailbox show it. -/
structure Past where
  job : ℕ
  issued : Bool
  committed : Bool
  /-- The sending ended with `OutboundOutcomeUnknown`. -/
  unknown : Bool
  /-- The search of the Sent folder answered, and nothing in it passed for the message. -/
  shownAbsent : Bool

structure World where
  /-- The messages committed by the provider, the newest first. -/
  sent : List Entry
  jobs : ℕ → Option JobRow
  history : List Past

/-- One attempt: what is known of the account, and what happens. -/
structure Attempt where
  job : ℕ
  account : Option Account
  accountFetchFailed : Bool
  script : Script

inductive Event
  | enqueue (job : ℕ) (payload : Payload)
  /-- A message is sent in another way. -/
  | elsewhere (subject : String) (delivery : Delivery)
  | attempt (a : Attempt)

section
variable (py : Python)

/-- The sending of the attempt, if it comes to one. -/
def Attempt.sending (a : Attempt) (payload : Payload) : Option (Sending × Folder) :=
  match a.account with
  | none => none
  | some account => if account.canSend = false then none else (sendingOf py account payload a.script).toOption

def Attempt.issued (a : Attempt) (payload : Payload) : Bool :=
  (a.sending py payload).any fun p => p.1.issued

/-- What the provider commits in the attempt. -/
def Attempt.committed (a : Attempt) (payload : Payload) : Option Entry :=
  if a.issued py payload then a.script.commits.map fun d => ⟨some a.job, payload.subject, d⟩ else none

def Sending.unknown (s : Sending) : Bool :=
  match s.outcome with
  | .ok _ => false
  | .error e => e.kind == .outcomeUnknown

def Attempt.unknown (a : Attempt) (payload : Payload) : Bool :=
  (a.sending py payload).any fun p => p.1.unknown

/-- The answer of the Sent folder in the attempt. -/
def Attempt.answer (a : Attempt) (payload : Payload) : Option (Except Raised (List String)) :=
  a.account.bind fun account => (a.sending py payload).map fun p => sentMatches py account payload a.script p.2

def Attempt.shownAbsent (a : Attempt) (payload : Payload) : Bool :=
  match a.answer py payload with
  | some (.ok []) => true
  | _ => false

def World.enqueued (w : World) (job : ℕ) (payload : Payload) : World :=
  { w with jobs := fun i => if i = job then some ⟨payload, .pending, 0⟩ else w.jobs i }

/-- The attempt, reported and acknowledged. -/
def World.attempted (w : World) (a : Attempt) (row : JobRow) : World :=
  let attempts := row.attempts + 1
  let report := processJob py a.account a.accountFetchFailed attempts row.payload a.script
  { sent := (a.committed py row.payload).toList ++ w.sent
    jobs := fun i =>
      if i = a.job then some { row with status := reportOutboundResult attempts report.status, attempts := attempts }
      else w.jobs i
    history := ⟨a.job, a.issued py row.payload, (a.committed py row.payload).isSome, a.unknown py row.payload,
      a.shownAbsent py row.payload⟩ :: w.history }

/-- A search of the Sent folder that answers shows every committed message of the subject, a fetched
    message is the committed one, and Graph lists the newest ten. -/
structure Shows (sent : List Entry) (payload : Payload) (script : Script) : Prop where
  search : ∀ recent, script.imap.search = .ok recent →
    ∀ e ∈ sent, py.strip e.subject = py.strip payload.subject → e.delivery.uid ∈ recent
  fetch : ∀ e ∈ sent, ∀ data, script.imap.fetch e.delivery.uid = .ok data → data = e.delivery.imap
  list : ∀ items, script.graph.list = .ok items → ∀ e ∈ sent.take 10, e.delivery.graph ∈ items

inductive Step (w : World) : Event → World → Prop
  | enqueue {job : ℕ} {payload : Payload} : w.jobs job = none →
      Step w (.enqueue job payload) (w.enqueued job payload)
  | elsewhere {subject : String} {delivery : Delivery} :
      Step w (.elsewhere subject delivery) { w with sent := ⟨none, subject, delivery⟩ :: w.sent }
  | attempt {a : Attempt} {row : JobRow} : w.jobs a.job = some row → row.status = .pending →
      Shows py (w.attempted py a row).sent row.payload a.script → Step w (.attempt a) (w.attempted py a row)

/-- A run starts with an empty queue; the mailbox may hold messages of other senders. -/
def outbound : Transition.System World Event where
  init := fun w => (∀ i, w.jobs i = none) ∧ w.history = [] ∧ ∀ e ∈ w.sent, e.job = none
  step := Step py

/-! ### The promise, and when it is kept -/

/-- The messages of a job that the provider has committed. -/
def World.commits (w : World) (job : ℕ) : List Entry := w.sent.filter fun e => e.job = some job

/-- A new sending command is issued only if every earlier attempt that ended with the outcome unknown
    was shown not to have been committed, which is true. -/
def SendsOnlyAfterAbsence (w : World) (e : Event) : Prop :=
  ∀ a row, e = .attempt a → w.jobs a.job = some row → a.issued py row.payload = true →
    ∀ p ∈ w.history, p.job = a.job → p.unknown = true → p.shownAbsent = true ∧ p.committed = false

/-- The filter of the folder takes this message for the one of the job. -/
def passesFilter (payload : Payload) (now : ℤ) (d : Delivery) : Folder → Bool
  | .imap =>
    match imapMatch py (py.strip payload.subject) now 300 d.imap with
    | .ok hit => hit
    | .error _ => false
  | .graph => graphMatch py (py.lower (py.strip payload.subject)) now 300 d.graph

/-- If the sending ends with the outcome unknown and attempts are left, the search of the Sent folder
    answers or ends the job, at most one message passes for the one of the job, and if none does then
    not because the filter would refuse the committed one. -/
def Conclusive (w : World) (e : Event) : Prop :=
  ∀ a row account s folder, e = .attempt a → w.jobs a.job = some row → a.account = some account →
    a.sending py row.payload = some (s, folder) → s.unknown = true → row.attempts + 1 < maxAttempts →
    match sentMatches py account row.payload a.script folder with
    | .error e => e.kind.retryable = false
    | .ok found => found.length ≤ 1 ∧ (found = [] → s.issued = true →
        ∀ d, a.script.commits = some d → passesFilter py row.payload a.script.now d folder = true)

end

end OneMail.Outbound
