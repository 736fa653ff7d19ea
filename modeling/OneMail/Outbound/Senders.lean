import OneMail.Lib.Ordered

/-! Sending one message through a provider, and looking for it in the Sent folder.

    `send_smtp_message`, the XOAUTH2 senders, the Gmail API and Microsoft Graph each issue one command
    that the provider may carry out whatever it answers; `issued` says whether that command was given.
    Their errors are sorted into definite ones and `OutboundOutcomeUnknown`. After the latter the Sent
    folder is searched by subject and time: one match is taken for the message, none or several leave
    the error as it was, and so does a search that fails.

    What the provider answers is given as data, one field a call, and so are the parts of Python's
    library that the matching needs. -/

namespace OneMail.Outbound

/-- The classes of Python exceptions, as far as an `except` or `_retryable` tells them apart. -/
inductive Kind
  | unsupported
  | identity
  | send
  | outcomeUnknown
  | reconcile
  | unsafeTarget
  /-- `requests.HTTPError` with the status of its response. -/
  | http (status : ℕ)
  | timeout
  | connection
  /-- Any other `requests.RequestException`. -/
  | request
  | imapAbort
  | imapClient
  | os
  | other
  deriving DecidableEq

structure Raised where
  kind : Kind
  text : String
  deriving DecidableEq

/-- What smtplib and the connecting functions around it raise. -/
inductive SmtpKind
  | authentication
  | helo
  | senderRefused
  | recipientsRefused
  | data
  /-- Any other `SMTPException`. -/
  | smtp
  | os
  /-- The greeting failed before STARTTLS: already an `OutboundIdentityError`. -/
  | greeting
  | other
  deriving DecidableEq

structure SmtpError where
  kind : SmtpKind
  text : String
  deriving DecidableEq

/-- What a call of requests, or reading its answer, raises. -/
inductive HttpKind
  | status (n : ℕ)
  | timeout
  | connection
  | request
  | other
  deriving DecidableEq

structure HttpError where
  kind : HttpKind
  text : String
  deriving DecidableEq

/-- `str` methods and date parsers; dates are in microseconds since the epoch, and `none` stands for a
    `TypeError` or `ValueError`. -/
structure Python where
  strip : String → String
  lower : String → String
  parsedateToDatetime : String → Option ℤ
  fromisoformat : String → Option ℤ

structure Account where
  id : String
  source : String
  username : String
  password : String
  /-- The tokens of the stored OAuth scope, if the account has an OAuth blob. -/
  oauth : Option (List String)
  canSend : Bool
  userManaged : Bool
  /-- The host of `resolve_smtp_endpoint`. -/
  smtpHost : String

structure Payload where
  fromAddr : String
  toAddr : String
  subject : String
  inReplyTo : Option String
  /-- `gmail_thread_id` of the payload. -/
  threadId : Option String
  /-- `_rfc822msgid_query` of `in_reply_to`. -/
  messageIdQuery : Option String

/-- The result of sending, and whether the sending command was issued. -/
structure Sending where
  outcome : Except Raised (Option String)
  issued : Bool

/-! ### Password SMTP -/

structure SmtpCalls where
  /-- `build_outbound_mime` -/
  mime : Except Raised Unit
  connect : Except SmtpError Unit
  login : Except SmtpError Unit
  /-- The reply to `AUTH XOAUTH2`. -/
  auth : Except SmtpError (ℕ × String)
  /-- The refused recipients: address, code and text. -/
  sendMessage : Except SmtpError (List (String × ℕ × String))

def rejected (failures : List (String × ℕ × String)) : String :=
  ", ".intercalate (failures.map fun f => s!"{f.1}: ({f.2.1}, {f.2.2})")

/-- The `except` clauses of `send_smtp_message`. -/
def SmtpError.raised (account : Account) (e : SmtpError) : Raised :=
  match e.kind with
  | .greeting => ⟨.identity, e.text⟩
  | .authentication | .helo => ⟨.identity, s!"SMTP auth/HELO failed for {account.id}: {e.text}"⟩
  | .senderRefused | .recipientsRefused | .data => ⟨.send, s!"SMTP send refused for {account.id}: {e.text}"⟩
  | .smtp => ⟨.outcomeUnknown, s!"SMTP send outcome is unknown for {account.id}: {e.text}"⟩
  | .os => ⟨.outcomeUnknown, s!"SMTP transport lost for {account.id}: {e.text}"⟩
  | .other => ⟨.other, e.text⟩

def sendSmtpMessage (account : Account) (calls : SmtpCalls) : Sending :=
  if account.smtpHost = "" then
    ⟨.error ⟨.unsupported, s!"no SMTP host configured for account {account.id} (source={account.source})"⟩, false⟩
  else if account.username = "" ∨ account.password = "" then
    ⟨.error ⟨.identity, s!"account {account.id} has no SMTP credentials"⟩, false⟩
  else
    match calls.mime, calls.connect, calls.login with
    | .error e, _, _ => ⟨.error e, false⟩
    | .ok (), .error e, _ | .ok (), .ok (), .error e => ⟨.error (e.raised account), false⟩
    | .ok (), .ok (), .ok () =>
      match calls.sendMessage with
      | .error e => ⟨.error (e.raised account), true⟩
      | .ok [] => ⟨.ok none, true⟩
      | .ok failures => ⟨.error ⟨.send, s!"SMTP send rejected for recipients: {rejected failures}"⟩, true⟩

/-! ### OAuth -/

structure OauthCalls where
  /-- Redeeming the refresh token, under `redemption_lock`. -/
  token : Except Raised Unit
  smtp : SmtpCalls
  /-- The `threadId` of each message that the Gmail lookup lists, if it is one. -/
  lookup : Except HttpError (List (Option String))
  /-- The POST that sends through the Gmail API, and the id it answers. -/
  gmailPost : Except HttpError (Option String)
  /-- The POST to `/me/sendMail`. -/
  graphPost : Except HttpError Unit

/-- The `except` clauses of `_send_smtp_xoauth`. -/
def SmtpError.raisedXoauth (account : Account) (label : String) (e : SmtpError) : Raised :=
  match e.kind with
  | .greeting => ⟨.identity, e.text⟩
  | .other => ⟨.outcomeUnknown, s!"{label} SMTP send outcome is unknown for {account.id}: {e.text}"⟩
  | _ => ⟨.outcomeUnknown, s!"{label} SMTP transport lost for {account.id}: {e.text}"⟩

/-- `_send_smtp_xoauth` once it has its access token. -/
def sendSmtpXoauthWith (account : Account) (label : String) (calls : SmtpCalls) : Sending :=
  match calls.mime, calls.connect, calls.auth with
  | .error e, _, _ => ⟨.error e, false⟩
  | .ok (), .error e, _ | .ok (), .ok (), .error e => ⟨.error (e.raisedXoauth account label), false⟩
  | .ok (), .ok (), .ok (code, resp) =>
    if code ≠ 334 then ⟨.error ⟨.identity, s!"XOAUTH2 auth rejected: {resp}"⟩, false⟩
    else
      match calls.sendMessage with
      | .error e => ⟨.error (e.raisedXoauth account label), true⟩
      | .ok [] => ⟨.ok none, true⟩
      | .ok failures =>
        ⟨.error ⟨.send, s!"{label} SMTP send rejected for recipients: {rejected failures}"⟩, true⟩

def sendSmtpXoauth (account : Account) (label : String) (calls : OauthCalls) : Sending :=
  match account.oauth, calls.token with
  | none, _ => ⟨.error ⟨.identity, s!"{label} account {account.id} has no OAuth config"⟩, false⟩
  | some _, .error e => ⟨.error e, false⟩
  | some _, .ok () => sendSmtpXoauthWith account label calls.smtp

/-- The `except` clauses around a call of requests; `forbidden` are the statuses that are not supported. -/
def HttpError.raised (forbidden : List ℕ) (forbiddenText : ℕ → String)
    (transientText rejectedText lostText unknownText : String) (e : HttpError) : Raised :=
  match e.kind with
  | .status n =>
    if n ∈ forbidden then ⟨.unsupported, forbiddenText n⟩
    else if n = 408 ∨ n = 429 ∨ 500 ≤ n then ⟨.outcomeUnknown, s!"{transientText} HTTP {n}: {e.text}"⟩
    else ⟨.send, s!"{rejectedText} HTTP {n}: {e.text}"⟩
  | .timeout | .connection => ⟨.outcomeUnknown, s!"{lostText}: {e.text}"⟩
  | .request => ⟨.outcomeUnknown, s!"{unknownText}: {e.text}"⟩
  | .other => ⟨.other, e.text⟩

/-- `lookup_gmail_thread_id` -/
def lookupGmailThreadId (payload : Payload) (calls : OauthCalls) : Except Raised (Option String) :=
  match payload.messageIdQuery, calls.lookup with
  | none, _ => .ok none
  | some _, .error e =>
    .error (e.raised [401, 403]
      (fun n => s!"Gmail thread lookup forbidden (HTTP {n}); reconnect the account if the grant lacks Gmail API access")
      "Gmail thread lookup transient error" "Gmail thread lookup rejected" "Gmail thread lookup did not complete"
      "Gmail thread lookup outcome is unknown")
  | some _, .ok [some thread] => .ok (some thread)
  | some _, .ok _ => .ok none

/-- `send_gmail_api` -/
def sendGmailApi (account : Account) (calls : OauthCalls) : Sending :=
  match calls.gmailPost with
  | .ok id => ⟨.ok id, true⟩
  | .error e =>
    ⟨.error (e.raised [401, 403]
      (fun n => s!"Gmail API send forbidden for {account.id} (HTTP {n}); reconnect the account if the grant lacks Gmail API access")
      "Gmail API send transient error" "Gmail API send rejected" s!"Gmail API send request lost for {account.id}"
      s!"Gmail API send outcome is unknown for {account.id}"), true⟩

/-- `send_gmail` -/
def sendGmail (py : Python) (account : Account) (payload : Payload) (calls : OauthCalls) : Sending :=
  let reply := payload.inReplyTo.any fun text => py.strip text ≠ ""
  if payload.threadId = none ∧ !reply then sendSmtpXoauth account "gmail" calls
  else
    match account.oauth, calls.token with
    | none, _ => ⟨.error ⟨.identity, s!"gmail account {account.id} has no OAuth config"⟩, false⟩
    | some _, .error e => ⟨.error e, false⟩
    | some _, .ok () =>
      if payload.threadId = none ∧ payload.inReplyTo.isSome then
        match lookupGmailThreadId payload calls with
        | .error e => ⟨.error e, false⟩
        | .ok none => sendSmtpXoauthWith account "gmail" calls.smtp
        | .ok (some _) => sendGmailApi account calls
      else sendGmailApi account calls

/-- `_graph_scope_allows_send` on the tokens of the stored scope. -/
def graphScopeAllowsSend (tokens : List String) : Bool :=
  let has (name : String) := tokens.any fun t => t == name || t.endsWith ("/" ++ name)
  tokens.isEmpty || has "mail.readwrite" || has "mail.send" || !has "mail.read"

/-- `send_graph` -/
def sendGraph (account : Account) (calls : OauthCalls) : Sending :=
  match account.oauth with
  | none => ⟨.error ⟨.identity, s!"Graph account {account.id} has no OAuth config"⟩, false⟩
  | some scope =>
    if graphScopeAllowsSend scope = false then
      ⟨.error ⟨.unsupported, "Microsoft Graph account has a read-only scope; reconnect it with Mail.ReadWrite or Mail.Send to send mail"⟩, false⟩
    else
      match calls.token, calls.graphPost with
      | .error e, _ => ⟨.error e, false⟩
      | .ok (), .ok () => ⟨.ok none, true⟩
      | .ok (), .error e =>
        ⟨.error (e.raised [403] (fun _ => s!"Graph sendMail forbidden (scope or policy): {e.text}")
          "Graph sendMail transient error" "Graph sendMail rejected" s!"Graph sendMail request lost for {account.id}"
          s!"Graph sendMail outcome is unknown for {account.id}"), true⟩

/-- `str(account.source or "").strip().lower()` -/
def Account.sourceName (py : Python) (account : Account) : String := py.lower (py.strip account.source)

/-- `send_outbound_oauth` -/
def sendOutboundOauth (py : Python) (account : Account) (payload : Payload) (calls : OauthCalls) : Sending :=
  let source := account.sourceName py
  if source = "imap_gmail" then sendGmail py account payload calls
  else if source = "imap_outlook" ∨ source = "msa" then sendSmtpXoauth account "outlook" calls
  else if source = "graph_outlook" then sendGraph account calls
  else ⟨.error ⟨.unsupported, s!"unknown OAuth send provider for account {account.id} (source={source})"⟩, false⟩

/-! ### Looking for the message in the Sent folder -/

/-- The `INTERNALDATE` of a `FETCH` answer. -/
inductive InternalDate
  | absent
  | text (raw : String)
  /-- A value that is neither bytes nor text; parsing it raises an `AttributeError`. -/
  | object
  deriving DecidableEq

structure FetchData where
  internaldate : InternalDate
  /-- The envelope as text. -/
  envelope : String
  deriving DecidableEq

structure ImapCalls where
  client : Except Raised Unit
  listFolders : Except Raised (List String)
  selectFolder : Except Raised Unit
  search : Except Raised (List ℕ)
  fetch : ℕ → Except Raised FetchData

/-- A message of the Sent Items listing of Graph. -/
structure GraphItem where
  id : Option String
  subject : String
  sentDateTime : Option String
  deriving DecidableEq

structure GraphCalls where
  token : Except Raised Unit
  list : Except HttpError (List GraphItem)

/-- `IMAPClientError` and `OSError`, of which the errors of requests are a part. -/
def Kind.isImapOrOs : Kind → Bool
  | .imapAbort | .imapClient | .os | .http _ | .timeout | .connection | .request => true
  | _ => false

def reconcileFailed (account : Account) (e : Raised) : Raised :=
  if e.kind.isImapOrOs then ⟨.reconcile, s!"Sent folder reconciliation failed for {account.id}: {e.text}"⟩ else e

def sentFolderCandidates (source : String) : List String :=
  if source = "imap_qq" ∨ source = "imap_163" then ["Sent", "已发送", "Sent Items"]
  else if source = "imap_gmail" then ["[Gmail]/Sent Mail", "Sent"]
  else if source = "imap_outlook" ∨ source = "msa" then ["Sent Items", "Sent"]
  else if source = "graph_outlook" then ["Sent Items"]
  else ["Sent", "Sent Items"]

/-- `_discover_sent_folder` -/
def discoverSentFolder (py : Python) (account : Account) (listFolders : Except Raised (List String)) :
    Except Raised String :=
  let candidates := sentFolderCandidates (account.sourceName py)
  let available : Except Raised (List String) :=
    match listFolders with
    | .ok folders => .ok folders
    | .error e => if e.kind.isImapOrOs then .ok candidates else .error e
  available.bind fun available =>
    match candidates.find? fun c => available.any fun f => py.strip f = c with
    | some folder => .ok folder
    | none =>
      .error ⟨.unsupported, s!"no Sent folder found for account {account.id} (source={account.sourceName py})"⟩

def microseconds (seconds : ℕ) : ℕ := seconds * 1000000

/-- The text `sub` occurs in `text`. -/
def isIn (sub text : String) : Bool := decide (sub.toList <:+: text.toList)

/-- The filter on a fetched message: in the time window, with the subject in its envelope. -/
def imapMatch (py : Python) (subject : String) (now : ℤ) (window : ℕ) (data : FetchData) : Except Raised Bool :=
  match data.internaldate with
  | .absent => .ok false
  | .object => .error ⟨.other, "object has no attribute 'split'"⟩
  | .text raw =>
    match py.parsedateToDatetime raw with
    | none => .ok false
    | some ts =>
      .ok (decide ((now - ts).natAbs ≤ microseconds window) && isIn (py.lower subject) (py.lower data.envelope))

/-- The loop over the search results, the newest first, which stops at the second match. -/
def imapMatches (py : Python) (subject : String) (now : ℤ) (window : ℕ) (fetch : ℕ → Except Raised FetchData) :
    List ℕ → List ℕ → Except Raised (List ℕ)
  | [], found => .ok found
  | uid :: uids, found =>
    (fetch uid).bind fun data => (imapMatch py subject now window data).bind fun hit =>
      let found := if hit then found ++ [uid] else found
      if 2 ≤ found.length then .ok found else imapMatches py subject now window fetch uids found

/-- What `reconcile_sent_folder` finds. -/
def sentFolderMatches (py : Python) (account : Account) (payload : Payload) (now : ℤ) (calls : ImapCalls) :
    Except Raised (List ℕ) :=
  calls.client.bind fun _ => (discoverSentFolder py account calls.listFolders).bind fun _ =>
    calls.selectFolder.bind fun _ => calls.search.bind fun recent =>
      imapMatches py (py.strip payload.subject) now 300 calls.fetch (Ordered.sortBy id recent).reverse []

/-- The filter on a listed message of Graph. -/
def graphMatch (py : Python) (subject : String) (now : ℤ) (window : ℕ) (item : GraphItem) : Bool :=
  (subject = "" || py.lower (py.strip item.subject) == subject) &&
    (match item.sentDateTime with
      | none => true
      | some raw =>
        match py.fromisoformat raw with
        | none => false
        | some ts => decide ((now - ts).natAbs ≤ microseconds window)) &&
    item.id.any (· ≠ "")

/-- The loop over the listing, which stops at the second match. -/
def graphMatches (py : Python) (subject : String) (now : ℤ) (window : ℕ) : List GraphItem → List String → List String
  | [], found => found
  | item :: items, found =>
    let found := if graphMatch py subject now window item then found ++ [item.id.getD ""] else found
    if 2 ≤ found.length then found else graphMatches py subject now window items found

/-- What `reconcile_graph_sent` finds. -/
def graphSentMatches (py : Python) (account : Account) (payload : Payload) (now : ℤ) (calls : GraphCalls) :
    Except Raised (List String) :=
  calls.token.bind fun _ =>
    match calls.list with
    | .ok items => .ok (graphMatches py (py.lower (py.strip payload.subject)) now 300 items [])
    | .error e =>
      match e.kind with
      | .other => .error ⟨.other, e.text⟩
      | _ => .error ⟨.reconcile, s!"Graph Sent Items reconciliation failed for {account.id}: {e.text}"⟩

/-- Exactly one match is the message. -/
def single {α : Type} : List α → Option α
  | [a] => some a
  | _ => none

/-- `reconcile_sent_folder` -/
def reconcileSentFolder (py : Python) (account : Account) (payload : Payload) (now : ℤ) (calls : ImapCalls) :
    Except Raised (Option String) :=
  match sentFolderMatches py account payload now calls with
  | .ok found => .ok ((single found).map toString)
  | .error e => .error (reconcileFailed account e)

/-- `reconcile_graph_sent` -/
def reconcileGraphSent (py : Python) (account : Account) (payload : Payload) (now : ℤ) (calls : GraphCalls) :
    Except Raised (Option String) :=
  (graphSentMatches py account payload now calls).map single

/-! ### Sending with reconciliation -/

/-- The `except` clauses of `send_with_reconcile` and `send_oauth_with_reconcile`. -/
def afterReconcile (sending : Sending) (reconciled : Except Raised (Option String)) :
    Except Raised (Option String) :=
  match sending.outcome with
  | .ok id => .ok id
  | .error original =>
    if original.kind = .outcomeUnknown then
      match reconciled with
      | .ok (some id) => .ok (some id)
      | .ok none => .error original
      | .error e => if e.kind = .reconcile then .error original else .error e
    else .error original

end OneMail.Outbound
