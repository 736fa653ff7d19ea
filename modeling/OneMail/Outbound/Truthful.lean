import OneMail.Outbound.AtMostOnce

/-! What an outbound report says is true of the message.

    Here the provider is given by its answers, command by command, and by whether it had taken the
    message when an answer was lost. `sendmail` asks for sender, recipient and data in turn; a course
    says how an attempt ends for the client (`Ending`), whether the provider accepted the message, and
    whether it agreed to everything it was asked. The senders follow that course (`sending_follows`), so
    what the report says comes down to the ending and to the search of the Sent folder. -/

namespace OneMail.Outbound

/-! ### The provider -/

/-- What comes back on an SMTP command; the text is the one of the exception that smtplib makes of it. -/
inductive Answer
  | reply (code : ℤ) (text : String)
  /-- `SMTPServerDisconnected`, or another `SMTPException` that is not about a reply. -/
  | dropped (text : String)
  /-- `OSError` -/
  | lost (text : String)
  deriving DecidableEq

/-- smtplib's check of an answer; another code is the given error. -/
def Answer.expect (codes : List ℤ) (refused : SmtpKind) : Answer → Except SmtpError Unit
  | .reply code text => if code ∈ codes then .ok () else .error ⟨refused, text⟩
  | .dropped text => .error ⟨.smtp, text⟩
  | .lost text => .error ⟨.os, text⟩

/-- The server has answered with one of the codes. -/
def Answer.grants (codes : List ℤ) : Answer → Bool
  | .reply code _ => decide (code ∈ codes)
  | _ => false

structure SmtpServer where
  /-- Connecting, with all that comes before the authentication is answered. -/
  connect : Except SmtpError Unit
  auth : Answer
  /-- `send_message` before its first command. -/
  flatten : Except SmtpError Unit
  mail : Answer
  rcpt : Answer
  data : Answer
  /-- The answer after the text of the message. -/
  final : Answer
  /-- The server has taken the message when it does not answer at last. -/
  taken : Bool

/-- `smtplib.SMTP.send_message` to one recipient; it returns the refused ones when others are accepted. -/
def SmtpServer.sendmail (server : SmtpServer) : Except SmtpError (List (String × ℕ × String)) :=
  server.flatten.bind fun _ => (server.mail.expect [250] .senderRefused).bind fun _ =>
    (server.rcpt.expect [250, 251] .recipientsRefused).bind fun _ => (server.data.expect [354] .data).bind fun _ =>
      (server.final.expect [250] .data).map fun _ => []

/-- Sender and recipient are accepted, and the data asked for. -/
def SmtpServer.invites (server : SmtpServer) : Bool :=
  server.flatten.toBool && server.mail.grants [250] && server.rcpt.grants [250, 251] && server.data.grants [354]

/-- The message is accepted, whether or not the client hears of it. -/
def SmtpServer.accepts (server : SmtpServer) : Bool :=
  server.invites && match server.final with
    | .reply code _ => decide (code = 250)
    | _ => server.taken

/-- The server says that it accepts sender, recipient and data. -/
def SmtpServer.agrees (server : SmtpServer) : Bool := server.invites && server.final.grants [250]

def Answer.toReply : Answer → Except SmtpError (ℕ × String)
  | .reply code text => .ok (code.toNat, text)
  | .dropped text => .error ⟨.smtp, text⟩
  | .lost text => .error ⟨.os, text⟩

/-- The session as the senders see it; `login` takes 503 for being authenticated already. -/
def SmtpServer.calls (server : SmtpServer) (mime : Except String Unit) : SmtpCalls where
  mime := mime.mapError fun text => ⟨.other, text⟩
  connect := server.connect
  login := server.auth.expect [235, 503] .authentication
  auth := server.auth.toReply
  sendMessage := server.sendmail

/-- The errors of requests that are not about a response. -/
inductive Loss
  | timeout
  | connection
  | request
  deriving DecidableEq

def Loss.kind : Loss → HttpKind
  | .timeout => .timeout
  | .connection => .connection
  | .request => .request

/-- The JSON of a response: an object with this `id`, or none; or another JSON value. -/
inductive Body
  | object (id : Option String)
  | value (text : String)
  deriving DecidableEq

/-- What comes of the request that sends a message. -/
inductive Post
  /-- A response. With a server error the message may have been taken. -/
  | response (status : ℕ) (text : String) (body : Body) (taken : Bool)
  | lost (loss : Loss) (text : String) (taken : Bool)
  /-- Something else was raised, before the request. -/
  | raised (text : String)
  deriving DecidableEq

/-- `raise_for_status` raises on these. -/
def errorStatus (status : ℕ) : Bool := decide (400 ≤ status ∧ status < 600)

def successStatus (status : ℕ) : Bool := decide (200 ≤ status ∧ status < 300)

/-- The request of `send_gmail_api`, up to the `id` of its answer. -/
def Post.gmail : Post → Except HttpError (Option String)
  | .response status text body _ =>
    if errorStatus status then .error ⟨.status status, text⟩
    else
      match body with
      | .object id => .ok id
      | .value text => .error ⟨.other, text⟩
  | .lost loss text _ => .error ⟨loss.kind, text⟩
  | .raised text => .error ⟨.other, text⟩

/-- The request of `send_graph`, which does not read the answer. -/
def Post.graph : Post → Except HttpError Unit
  | .response status text _ _ => if errorStatus status then .error ⟨.status status, text⟩ else .ok ()
  | .lost loss text _ => .error ⟨loss.kind, text⟩
  | .raised text => .error ⟨.other, text⟩

def Post.accepts : Post → Bool
  | .response status _ _ taken => successStatus status || (decide (500 ≤ status ∧ status < 600) && taken)
  | .lost _ _ taken => taken
  | .raised _ => false

def Post.agrees : Post → Bool
  | .response status _ _ _ => successStatus status
  | _ => false

/-- One attempt: the account, and what the provider does. -/
structure Try where
  account : Option Account
  accountFetchFailed : Bool
  attempts : ℕ
  publicTarget : Except Raised Unit
  mime : Except String Unit
  smtp : SmtpServer
  token : Except Raised Unit
  lookup : Except HttpError (List (Option String))
  post : Post
  imap : ImapCalls
  graph : GraphCalls
  now : ℤ
  /-- The message as the provider keeps it, once it has accepted it. -/
  delivery : Delivery

/-! ### The course of an attempt -/

/-- How the sending ends for the client. -/
inductive Ending
  | done
  | refused
  /-- Without an answer on the message. -/
  | uncertain
  deriving DecidableEq

/-- The ways in which a message is offered to the provider. -/
inductive Route
  | smtp
  | xoauth
  | gmail
  | graph
  deriving DecidableEq

structure Course where
  /-- `none` if it does not come to that. -/
  route : Option Route
  ending : Ending
  /-- The provider has accepted the message. -/
  accepted : Bool
  /-- The provider agrees to authentication, sender, recipient and data. -/
  agreed : Bool
  deriving DecidableEq

/-- The sending ends before the message is offered. -/
def Course.unsent (ending : Ending) : Course := ⟨none, ending, false, false⟩

/-- Where a session ends that was interrupted; refusals are answers, other errors are none. -/
def SmtpKind.ending : SmtpKind → Ending
  | .smtp | .os => .uncertain
  | _ => .refused

/-- In an XOAUTH2 session only the greeting is refused. -/
def SmtpKind.endingXoauth : SmtpKind → Ending
  | .greeting => .refused
  | _ => .uncertain

def endingOf {α : Type} (interrupted : SmtpKind → Ending) : Except SmtpError α → Ending
  | .ok _ => .done
  | .error e => interrupted e.kind

def SmtpServer.course (server : SmtpServer) : Course :=
  match server.connect, server.auth.expect [235, 503] .authentication with
  | .error e, _ | .ok (), .error e => .unsent e.kind.ending
  | .ok (), .ok () => ⟨some .smtp, endingOf SmtpKind.ending server.sendmail, server.accepts,
      server.auth.grants [235] && server.agrees⟩

/-- The session of `_send_smtp_xoauth` goes on after 334. -/
def SmtpServer.courseXoauth (server : SmtpServer) : Course :=
  match server.connect, server.auth with
  | .error e, _ => .unsent e.kind.endingXoauth
  | .ok (), .reply code _ =>
    if code = 334 then ⟨some .xoauth, endingOf SmtpKind.endingXoauth server.sendmail, server.accepts, false⟩
    else ⟨some .xoauth, .refused, false, server.auth.grants [235] && server.agrees⟩
  | .ok (), .dropped _ | .ok (), .lost _ => .unsent .uncertain

/-- The statuses that leave the outcome open. -/
def openStatus (status : ℕ) : Bool := decide (status = 408 ∨ status = 429 ∨ 500 ≤ status)

def HttpKind.ending : HttpKind → Ending
  | .status n => if openStatus n then .uncertain else .refused
  | .timeout | .connection | .request => .uncertain
  | .other => .refused

def Post.courseGmail (post : Post) : Course where
  route := some .gmail
  ending := match post with
    | .response status _ body _ =>
      if errorStatus status then (HttpKind.status status).ending
      else
        match body with
        | .object _ => .done
        | .value _ => .refused
    | .lost _ _ _ => .uncertain
    | .raised _ => .refused
  accepted := post.accepts
  agreed := post.agrees

def Post.courseGraph (post : Post) : Course where
  route := some .graph
  ending := match post with
    | .response status _ _ _ => if errorStatus status then (HttpKind.status status).ending else .done
    | .lost _ _ _ => .uncertain
    | .raised _ => .refused
  accepted := post.accepts
  agreed := post.agrees

def Kind.ending (kind : Kind) : Ending := if kind = .outcomeUnknown then .uncertain else .refused

def Try.smtpCourse (t : Try) (account : Account) : Course :=
  if account.smtpHost = "" ∨ account.username = "" ∨ account.password = "" then .unsent .refused
  else
    match t.mime with
    | .error _ => .unsent .refused
    | .ok () => t.smtp.course

def Try.xoauthCourse (t : Try) : Course :=
  match t.mime with
  | .error _ => .unsent .refused
  | .ok () => t.smtp.courseXoauth

/-- What follows once the account has an access token. -/
def Try.withToken (t : Try) (account : Account) (next : Course) : Course :=
  match account.oauth, t.token with
  | none, _ => .unsent .refused
  | some _, .error e => .unsent e.kind.ending
  | some _, .ok () => next

/-- The course of `send_gmail`: through SMTP, unless the message answers one whose thread is known. -/
def Try.gmailCourse (t : Try) (py : Python) (payload : Payload) (account : Account) : Course :=
  t.withToken account
    (if payload.threadId = none ∧ (payload.inReplyTo.any fun text => py.strip text ≠ "") = false then t.xoauthCourse
    else if payload.threadId = none then
      match payload.messageIdQuery, t.lookup with
      | some _, .error e => .unsent e.kind.ending
      | some _, .ok [some _] => t.post.courseGmail
      | _, _ => t.xoauthCourse
    else t.post.courseGmail)

def Try.graphCourse (t : Try) (account : Account) : Course :=
  if account.oauth.any (fun scope => graphScopeAllowsSend scope = false) then .unsent .refused
  else t.withToken account t.post.courseGraph

def Try.oauthCourse (t : Try) (py : Python) (payload : Payload) (account : Account) : Course :=
  let source := account.sourceName py
  if source = "imap_gmail" then t.gmailCourse py payload account
  else if source = "imap_outlook" ∨ source = "msa" then t.withToken account t.xoauthCourse
  else if source = "graph_outlook" then t.graphCourse account
  else .unsent .refused

/-- The choice of `execute_outbound` between the two kinds of senders. -/
def dispatchTo {α : Type} (py : Python) (account : Account) (payload : Payload) (password oauth : α) :
    Except Raised (α × Folder) :=
  let source := account.sourceName py
  if payload.toAddr = "" then .error ⟨.identity, "outbound job has no recipient address"⟩
  else if payload.fromAddr = "" then .error ⟨.identity, "outbound job has no from address"⟩
  else if py.lower (py.strip payload.fromAddr) ≠ py.lower (py.strip account.username) then
    .error ⟨.identity, s!"outbound job from address {payload.fromAddr} does not match account {account.id}"⟩
  else if source ∈ ["imap_qq", "imap_163", "imap_custom"] then .ok (password, .imap)
  else if source ∈ ["imap_gmail", "imap_outlook", "msa"] then
    if account.oauth.isSome then .ok (oauth, .imap) else .ok (password, .imap)
  else if source = "graph_outlook" then .ok (oauth, .graph)
  else .error ⟨.unsupported, s!"unknown outbound provider for account {account.id} (source={source})"⟩

/-- The course of an attempt that comes to sending, and the folder to search. -/
def Try.course (t : Try) (py : Python) (payload : Payload) : Option (Course × Folder) :=
  match t.account with
  | none => none
  | some account =>
    if account.canSend = false then none
    else
      ((if account.userManaged then t.publicTarget else .ok ()).bind fun _ =>
        dispatchTo py account payload (t.smtpCourse account) (t.oauthCourse py payload account)).toOption

/-- The provider has accepted the message of the job in this attempt. -/
def Try.accepted (t : Try) (py : Python) (payload : Payload) : Bool :=
  (t.course py payload).any fun p => p.1.accepted

def Try.agreed (t : Try) (py : Python) (payload : Payload) : Bool :=
  (t.course py payload).any fun p => p.1.agreed

/-! ### The attempt as the aggregator sees it -/

def Try.script (t : Try) (py : Python) (payload : Payload) : Script where
  publicTarget := t.publicTarget
  smtp := t.smtp.calls t.mime
  oauth := ⟨t.token, t.smtp.calls t.mime, t.lookup, t.post.gmail, t.post.graph⟩
  imap := t.imap
  graph := t.graph
  now := t.now
  commits := if t.accepted py payload then some t.delivery else none

def Try.report (t : Try) (py : Python) (payload : Payload) : Report :=
  processJob py t.account t.accountFetchFailed t.attempts payload (t.script py payload)

def Sending.ending (s : Sending) : Ending :=
  match s.outcome with
  | .ok _ => .done
  | .error e => e.kind.ending

/-- A sending that follows a course: it ends so, and what is accepted was sent. -/
structure Sending.Follows (s : Sending) (course : Course) : Prop where
  ending : s.ending = course.ending
  issued : course.accepted = true → s.issued = true

variable {py : Python} {account : Account} {payload : Payload} {s : Sending} {folder : Folder} {t : Try}

/-! ### The senders follow the course -/

theorem raised_ending (e : SmtpError) : (e.raised account).kind.ending = e.kind.ending := by
  obtain ⟨kind, text⟩ := e
  cases kind <;> rfl

theorem raisedXoauth_ending (label : String) (e : SmtpError) :
    (e.raisedXoauth account label).kind.ending = e.kind.endingXoauth := by
  obtain ⟨kind, text⟩ := e
  cases kind <;> rfl

/-- A status that the account is not allowed to use is a refusal. -/
theorem http_raised_ending (forbidden : List ℕ) (f : ℕ → String) (t₁ t₂ t₃ t₄ : String) (e : HttpError)
    (hclosed : ∀ n ∈ forbidden, openStatus n = false) :
    (e.raised forbidden f t₁ t₂ t₃ t₄).kind.ending = e.kind.ending := by
  obtain ⟨kind, text⟩ := e
  cases kind with
  | status n =>
    rw [HttpError.raised, HttpKind.ending]
    dsimp only
    by_cases hforbidden : n ∈ forbidden
    · rw [if_pos hforbidden, hclosed n hforbidden]
      rfl
    · rw [if_neg hforbidden]
      by_cases hopen : n = 408 ∨ n = 429 ∨ 500 ≤ n
      · rw [if_pos hopen, openStatus, decide_eq_true hopen]
        rfl
      · rw [if_neg hopen, openStatus, decide_eq_false hopen]
        rfl
  | timeout | connection | request | other => rfl

theorem follows_unsent {e : Raised} {issued : Bool} {ending : Ending} (h : e.kind.ending = ending) :
    Sending.Follows ⟨.error e, issued⟩ (.unsent ending) :=
  ⟨h, fun haccepted => nomatch haccepted⟩

theorem sendmail_cases (server : SmtpServer) :
    server.sendmail = .ok [] ∨ ∃ e, server.sendmail = .error e := by
  rcases hsend : server.sendmail with e | failures
  · exact .inr ⟨e, rfl⟩
  · obtain ⟨_, -, hsend⟩ := except_bind_ok hsend
    obtain ⟨_, -, hsend⟩ := except_bind_ok hsend
    obtain ⟨_, -, hsend⟩ := except_bind_ok hsend
    obtain ⟨_, -, hsend⟩ := except_bind_ok hsend
    cases hfinal : server.final.expect [250] .data with
    | error _ =>
      rw [hfinal] at hsend
      cases hsend
    | ok _ =>
      rw [hfinal] at hsend
      exact .inl (congrArg Except.ok (Except.ok.inj hsend).symm)

theorem sendSmtpMessage_follows (t : Try) (account : Account) :
    (sendSmtpMessage account (t.smtp.calls t.mime)).Follows (t.smtpCourse account) := by
  rw [sendSmtpMessage, Try.smtpCourse]
  by_cases hhost : account.smtpHost = ""
  · rw [if_pos hhost, if_pos (.inl hhost)]
    exact follows_unsent rfl
  by_cases hlogin : account.username = "" ∨ account.password = ""
  · rw [if_neg hhost, if_pos hlogin, if_pos (.inr hlogin)]
    exact follows_unsent rfl
  rw [if_neg hhost, if_neg hlogin, if_neg (not_or.mpr ⟨hhost, hlogin⟩), SmtpServer.calls]
  dsimp only
  cases hmime : t.mime with
  | error text => exact follows_unsent rfl
  | ok _ =>
    rw [SmtpServer.course]
    cases hconnect : t.smtp.connect with
    | error e => exact follows_unsent (raised_ending e)
    | ok _ =>
      cases hauth : t.smtp.auth.expect [235, 503] .authentication with
      | error e => exact follows_unsent (raised_ending e)
      | ok _ =>
        rcases sendmail_cases t.smtp with hsend | ⟨e, hsend⟩
        · simp only [hsend, Except.mapError]
          exact ⟨rfl, fun _ => rfl⟩
        · simp only [hsend, Except.mapError]
          exact ⟨raised_ending e, fun _ => rfl⟩

theorem sendSmtpXoauthWith_follows (t : Try) (account : Account) (label : String) :
    (sendSmtpXoauthWith account label (t.smtp.calls t.mime)).Follows t.xoauthCourse := by
  rw [sendSmtpXoauthWith, Try.xoauthCourse, SmtpServer.calls]
  dsimp only
  cases hmime : t.mime with
  | error text => exact follows_unsent rfl
  | ok _ =>
    rw [SmtpServer.courseXoauth]
    cases hconnect : t.smtp.connect with
    | error e => exact follows_unsent (raisedXoauth_ending label e)
    | ok _ =>
      cases hauth : t.smtp.auth with
      | dropped text | lost text => exact follows_unsent rfl
      | reply code text =>
        simp only [Answer.toReply, Except.mapError]
        by_cases hcode : code = 334
        · rw [if_neg (by rw [hcode]; decide), if_pos hcode]
          rcases sendmail_cases t.smtp with hsend | ⟨e, hsend⟩
          · simp only [hsend]
            exact ⟨rfl, fun _ => rfl⟩
          · simp only [hsend]
            exact ⟨raisedXoauth_ending label e, fun _ => rfl⟩
        · rw [if_pos (by omega), if_neg hcode]
          exact ⟨rfl, fun haccepted => by cases haccepted⟩

theorem sendSmtpXoauth_follows (py : Python) (payload : Payload) (t : Try) (account : Account) (label : String) :
    (sendSmtpXoauth account label (t.script py payload).oauth).Follows (t.withToken account t.xoauthCourse) := by
  rw [sendSmtpXoauth, Try.withToken, Try.script]
  cases account.oauth with
  | none => exact follows_unsent rfl
  | some scope =>
    cases t.token with
    | error e => exact follows_unsent rfl
    | ok _ => exact sendSmtpXoauthWith_follows t account label

theorem gmail_post (post : Post) : (∃ id, post.gmail = .ok id ∧ post.courseGmail.ending = .done) ∨
    ∃ e, post.gmail = .error e ∧ post.courseGmail.ending = e.kind.ending := by
  rcases post with ⟨status, text, body, taken⟩ | ⟨loss, text, taken⟩ | text
  · by_cases hstatus : errorStatus status = true
    · exact .inr ⟨_, if_pos hstatus, if_pos hstatus⟩
    · cases body with
      | object id => exact .inl ⟨id, if_neg hstatus, if_neg hstatus⟩
      | value text => exact .inr ⟨_, if_neg hstatus, if_neg hstatus⟩
  · exact .inr ⟨_, rfl, by cases loss <;> rfl⟩
  · exact .inr ⟨_, rfl, rfl⟩

theorem graph_post (post : Post) : (post.graph = .ok () ∧ post.courseGraph.ending = .done) ∨
    ∃ e, post.graph = .error e ∧ post.courseGraph.ending = e.kind.ending := by
  rcases post with ⟨status, text, body, taken⟩ | ⟨loss, text, taken⟩ | text
  · by_cases hstatus : errorStatus status = true
    · exact .inr ⟨_, if_pos hstatus, if_pos hstatus⟩
    · exact .inl ⟨if_neg hstatus, if_neg hstatus⟩
  · exact .inr ⟨_, rfl, by cases loss <;> rfl⟩
  · exact .inr ⟨_, rfl, rfl⟩

theorem sendGmailApi_follows {calls : OauthCalls} {post : Post} (h : calls.gmailPost = post.gmail)
    (account : Account) : (sendGmailApi account calls).Follows post.courseGmail := by
  rw [sendGmailApi, h]
  rcases gmail_post post with ⟨id, hpost, hending⟩ | ⟨e, hpost, hending⟩
  · rw [hpost]
    exact ⟨hending.symm, fun _ => rfl⟩
  · rw [hpost]
    exact ⟨(http_raised_ending _ _ _ _ _ _ e (by decide)).trans hending.symm, fun _ => rfl⟩

theorem sendGmail_follows (t : Try) (account : Account) :
    (sendGmail py account payload (t.script py payload).oauth).Follows (t.gmailCourse py payload account) := by
  simp only [sendGmail, Try.gmailCourse]
  by_cases hplain : payload.threadId = none ∧ (payload.inReplyTo.any fun text => py.strip text ≠ "") = false
  · rw [if_pos (by simpa using hplain), if_pos hplain]
    exact sendSmtpXoauth_follows py payload t account _
  rw [if_neg (by simpa using hplain), if_neg hplain, Try.withToken]
  cases account.oauth with
  | none => exact follows_unsent rfl
  | some scope =>
    simp only [Try.script]
    cases t.token with
    | error e => exact follows_unsent rfl
    | ok _ =>
      by_cases hthread : payload.threadId = none
      · have hreply : payload.inReplyTo.isSome = true := by
          rcases hin : payload.inReplyTo with - | text
          · rw [hin] at hplain
            exact absurd ⟨hthread, rfl⟩ hplain
          · rfl
        simp only [hthread, hreply, lookupGmailThreadId]
        rcases payload.messageIdQuery with - | query
        · exact sendSmtpXoauthWith_follows t account _
        rcases t.lookup with e | threads
        · exact follows_unsent (http_raised_ending _ _ _ _ _ _ e (by decide))
        · rcases threads with - | ⟨- | thread, - | ⟨other, threads⟩⟩
          · exact sendSmtpXoauthWith_follows t account _
          · exact sendSmtpXoauthWith_follows t account _
          · exact sendSmtpXoauthWith_follows t account _
          · exact sendGmailApi_follows rfl account
          · exact sendSmtpXoauthWith_follows t account _
      · simp only [hthread, false_and]
        exact sendGmailApi_follows rfl account

theorem sendGraph_follows (t : Try) (account : Account) :
    (sendGraph account (t.script py payload).oauth).Follows (t.graphCourse account) := by
  rw [sendGraph, Try.graphCourse, Try.withToken]
  cases account.oauth with
  | none => exact follows_unsent rfl
  | some scope =>
    dsimp only [Option.any]
    by_cases hscope : graphScopeAllowsSend scope = false
    · rw [if_pos hscope, if_pos (decide_eq_true hscope)]
      exact follows_unsent rfl
    · rw [if_neg hscope, if_neg (by simpa using hscope), Try.script]
      cases t.token with
      | error e => exact follows_unsent rfl
      | ok _ =>
        dsimp only
        rcases graph_post t.post with ⟨hpost, hending⟩ | ⟨e, hpost, hending⟩
        · rw [hpost]
          exact ⟨hending.symm, fun _ => rfl⟩
        · rw [hpost]
          exact ⟨(http_raised_ending _ _ _ _ _ _ e (by decide)).trans hending.symm, fun _ => rfl⟩

theorem sendOutboundOauth_follows (t : Try) (account : Account) :
    (sendOutboundOauth py account payload (t.script py payload).oauth).Follows (t.oauthCourse py payload account) := by
  simp only [sendOutboundOauth, Try.oauthCourse]
  split_ifs
  · exact sendGmail_follows t account
  · exact sendSmtpXoauth_follows py payload t account _
  · exact sendGraph_follows t account
  · exact follows_unsent rfl

theorem dispatchTo_rel {α β : Type} {R : α → β → Prop} {a₁ a₂ : α} {b₁ b₂ : β} (x : Except Raised Unit)
    (hpassword : R a₁ b₁) (hoauth : R a₂ b₂) :
    Option.Rel (fun p q => R p.1 q.1 ∧ p.2 = q.2)
      (x.bind fun _ => dispatchTo py account payload a₁ a₂).toOption
      (x.bind fun _ => dispatchTo py account payload b₁ b₂).toOption := by
  cases x with
  | error _ => exact .none
  | ok _ =>
    simp only [Except.bind, dispatchTo]
    split_ifs
    · exact .none
    · exact .none
    · exact .none
    · exact .some ⟨hpassword, rfl⟩
    · exact .some ⟨hoauth, rfl⟩
    · exact .some ⟨hpassword, rfl⟩
    · exact .some ⟨hoauth, rfl⟩
    · exact .none

def Try.attempt (t : Try) (py : Python) (payload : Payload) (job : ℕ) : Attempt :=
  ⟨job, t.account, t.accountFetchFailed, t.script py payload⟩

/-- The sending of an attempt follows its course. -/
theorem sending_follows (t : Try) (py : Python) (payload : Payload) (job : ℕ) :
    Option.Rel (fun p q => p.1.Follows q.1 ∧ p.2 = q.2) ((t.attempt py payload job).sending py payload)
      (t.course py payload) := by
  rw [Attempt.sending, Try.course, Try.attempt]
  dsimp only
  cases haccount : t.account with
  | none => exact .none
  | some account =>
    dsimp only
    by_cases hcan : account.canSend = false
    · rw [if_pos hcan, if_pos hcan]
      exact .none
    · rw [if_neg hcan, if_neg hcan]
      exact dispatchTo_rel _ (sendSmtpMessage_follows t account) (sendOutboundOauth_follows t account)

/-! ### What the provider's answers mean -/

theorem Answer.expect_ok (refused : SmtpKind) {codes : List ℤ} {answer : Answer} :
    answer.expect codes refused = .ok () ↔ answer.grants codes = true := by
  cases answer with
  | reply code text =>
    rw [Answer.expect, Answer.grants, decide_eq_true_iff]
    split <;> simp_all
  | dropped text | lost text => simp [Answer.expect, Answer.grants]

/-- Once data is asked for, the last answer decides. -/
theorem SmtpServer.sendmail_of_invites {server : SmtpServer} (h : server.invites = true) :
    server.sendmail = (server.final.expect [250] .data).map fun _ => [] := by
  rw [SmtpServer.invites, Bool.and_eq_true, Bool.and_eq_true, Bool.and_eq_true, ← Answer.expect_ok .senderRefused,
    ← Answer.expect_ok .recipientsRefused, ← Answer.expect_ok .data] at h
  obtain ⟨⟨⟨hflatten, hmail⟩, hrcpt⟩, hdata⟩ := h
  rw [SmtpServer.sendmail, hmail, hrcpt, hdata]
  cases hf : server.flatten with
  | error _ =>
    rw [hf] at hflatten
    cases hflatten
  | ok _ => rfl

theorem SmtpServer.invites_of_sendmail {server : SmtpServer} {failures : List (String × ℕ × String)}
    (h : server.sendmail = .ok failures) : server.invites = true := by
  obtain ⟨_, hflatten, h⟩ := except_bind_ok h
  obtain ⟨_, hmail, h⟩ := except_bind_ok h
  obtain ⟨_, hrcpt, h⟩ := except_bind_ok h
  obtain ⟨_, hdata, -⟩ := except_bind_ok h
  rw [SmtpServer.invites, (Answer.expect_ok _).mp hmail, (Answer.expect_ok _).mp hrcpt, (Answer.expect_ok _).mp hdata,
    hflatten]
  rfl

theorem SmtpServer.sendmail_ok (server : SmtpServer) : server.sendmail = .ok [] ↔ server.agrees = true := by
  rw [SmtpServer.agrees, Bool.and_eq_true]
  constructor
  · intro h
    have hinvites := SmtpServer.invites_of_sendmail h
    rw [SmtpServer.sendmail_of_invites hinvites] at h
    refine ⟨hinvites, (Answer.expect_ok .data).mp ?_⟩
    cases hfinal : server.final.expect [250] .data with
    | error _ =>
      rw [hfinal] at h
      cases h
    | ok _ => rfl
  · rintro ⟨hinvites, hfinal⟩
    rw [SmtpServer.sendmail_of_invites hinvites, (Answer.expect_ok .data).mpr hfinal]
    rfl

theorem SmtpServer.accepts_of_agrees {server : SmtpServer} (h : server.agrees = true) : server.accepts = true := by
  rw [SmtpServer.agrees, Bool.and_eq_true] at h
  rw [SmtpServer.accepts, h.1]
  cases hfinal : server.final with
  | reply code text =>
    rw [hfinal] at h
    simpa [Answer.grants] using h.2
  | dropped text | lost text =>
    rw [hfinal] at h
    cases h.2

/-- A message that is accepted although the session ends with an error: its last answer is missing. -/
theorem SmtpServer.error_of_accepts {server : SmtpServer} {e : SmtpError} (h : server.accepts = true)
    (herror : server.sendmail = .error e) : e.kind = .smtp ∨ e.kind = .os := by
  rw [SmtpServer.accepts, Bool.and_eq_true] at h
  obtain ⟨hinvites, hfinal⟩ := h
  rw [SmtpServer.sendmail_of_invites hinvites] at herror
  cases hanswer : server.final with
  | reply code text =>
    rw [hanswer] at hfinal herror
    have hcode : code ∈ [(250 : ℤ)] := by simpa using hfinal
    rw [Answer.expect, if_pos hcode] at herror
    cases herror
  | dropped text =>
    rw [hanswer] at herror
    rw [← Except.error.inj herror]
    exact .inl rfl
  | lost text =>
    rw [hanswer] at herror
    rw [← Except.error.inj herror]
    exact .inr rfl

/-! ### Courses that are reported wrongly -/

/-- A response that is no error and yet does not say that the message is accepted. -/
def Post.unfinished : Post → Bool
  | .response status _ _ _ => !errorStatus status && !successStatus status
  | _ => false

/-- The answer to a request through the Gmail API is an object, if it is JSON at all. -/
def Post.readable : Post → Bool
  | .response _ _ (.value _) _ => false
  | _ => true

/-- The provider agrees, and the client takes that for a refusal: the 235 that accepts an XOAUTH2
    authentication, or an answer of the Gmail API that is not the object it should be. -/
def Try.Misread (t : Try) : Route → Prop
  | .xoauth => t.smtp.auth.grants [235] = true ∧ t.smtp.agrees = true
  | .gmail => t.post.agrees = true ∧ t.post.readable = false
  | .smtp | .graph => False

/-- The client takes a response for an acceptance that is none. -/
def Try.Unfinished (t : Try) : Route → Prop
  | .gmail => t.post.unfinished = true ∧ t.post.readable = true
  | .graph => t.post.unfinished = true
  | .smtp | .xoauth => False

/-- What the answers of a course come to. -/
structure Course.Fits (c : Course) (t : Try) : Prop where
  done : c.ending = .done → (c.accepted = true ∨ ∃ r, c.route = some r ∧ t.Unfinished r)
  refused : c.ending = .refused → (c.accepted = true ∨ c.agreed = true) → ∃ r, c.route = some r ∧ t.Misread r
  uncertain : c.ending = .uncertain → c.agreed = false
  misread : ∀ r, c.route = some r → t.Misread r → c.ending = .refused ∧ c.agreed = true
  unfinished : ∀ r, c.route = some r → t.Unfinished r → c.ending = .done ∧ c.accepted = false

variable {c : Course}

theorem fits_unsent {ending : Ending} (h : ending ≠ .done) : (Course.unsent ending).Fits t :=
  ⟨fun hdone => absurd hdone h, fun _ hor => absurd hor (by simp [Course.unsent]), fun _ => rfl,
    fun _ hr => (nomatch hr), fun _ hr => (nomatch hr)⟩

theorem raisedEnding_ne_done (kind : Kind) : kind.ending ≠ .done := by
  rw [Kind.ending]
  split <;> decide

theorem smtpEnding_ne_done (kind : SmtpKind) : kind.ending ≠ .done ∧ kind.endingXoauth ≠ .done := by
  cases kind <;> decide

theorem httpEnding_ne_done (kind : HttpKind) : kind.ending ≠ .done := by
  cases kind with
  | status n =>
    rw [HttpKind.ending]
    split <;> decide
  | timeout | connection | request | other => decide

/-- A course through SMTP, where only the client's reading of the authentication can be wrong. -/
theorem fits_session {route : Route} {interrupted : SmtpKind → Ending} {server : SmtpServer} {agreed : Bool}
    (hroute : route = .smtp ∨ route = .xoauth) (hdone : ∀ kind, interrupted kind ≠ .done)
    (hlost : interrupted .smtp = .uncertain ∧ interrupted .os = .uncertain)
    (hagreed : agreed = true → server.agrees = true) (hmisread : ¬ t.Misread route) :
    Course.Fits ⟨some route, endingOf interrupted server.sendmail, server.accepts, agreed⟩ t := by
  have hagrees : agreed = true → endingOf interrupted server.sendmail = .done := by
    intro h
    rw [(SmtpServer.sendmail_ok server).mpr (hagreed h)]
    rfl
  refine ⟨fun h => ?_, fun h hor => ?_, fun h => ?_, fun r hr hm => ?_, fun r hr hu => ?_⟩
  · dsimp only at h
    rcases sendmail_cases server with hsend | ⟨e, hsend⟩
    · exact .inl (SmtpServer.accepts_of_agrees ((SmtpServer.sendmail_ok server).mp hsend))
    · rw [hsend] at h
      exact absurd h (hdone e.kind)
  · dsimp only at h hor
    rcases hor with haccepts | hagreed
    · rcases sendmail_cases server with hsend | ⟨e, hsend⟩
      · rw [hsend] at h
        cases h
      · rw [hsend] at h
        rcases SmtpServer.error_of_accepts haccepts hsend with hkind | hkind
        · rw [endingOf, hkind, hlost.1] at h
          cases h
        · rw [endingOf, hkind, hlost.2] at h
          cases h
    · rw [hagrees hagreed] at h
      cases h
  · dsimp only at h ⊢
    cases agreed with
    | false => rfl
    | true =>
      rw [hagrees rfl] at h
      cases h
  · obtain rfl := Option.some.inj hr
    exact absurd hm hmisread
  · obtain rfl := Option.some.inj hr
    rcases hroute with rfl | rfl <;> cases hu

theorem smtp_course_fits (t : Try) : t.smtp.course.Fits t := by
  rw [SmtpServer.course]
  rcases t.smtp.connect with e | _
  · exact fits_unsent (smtpEnding_ne_done e.kind).1
  · rcases t.smtp.auth.expect [235, 503] .authentication with e | _
    · exact fits_unsent (smtpEnding_ne_done e.kind).1
    · refine fits_session (.inl rfl) (fun kind => (smtpEnding_ne_done kind).1) ⟨rfl, rfl⟩ (fun h => ?_) id
      exact (Bool.and_eq_true _ _ ▸ h).2

theorem xoauth_course_fits (t : Try) : t.smtp.courseXoauth.Fits t := by
  rw [SmtpServer.courseXoauth]
  rcases t.smtp.connect with e | _
  · exact fits_unsent (smtpEnding_ne_done e.kind).2
  · cases hauth : t.smtp.auth with
    | dropped text | lost text => exact fits_unsent (by decide)
    | reply code text =>
      dsimp only
      by_cases hcode : code = 334
      · rw [if_pos hcode]
        refine fits_session (.inr rfl) (fun kind => (smtpEnding_ne_done kind).2) ⟨rfl, rfl⟩ (fun h => nomatch h) ?_
        rintro ⟨hgrants, -⟩
        rw [hauth, hcode] at hgrants
        exact absurd hgrants (by simp [Answer.grants])
      · rw [if_neg hcode]
        refine ⟨fun h => (nomatch h), fun _ hor => ?_, fun h => (nomatch h), fun r hr hm => ?_, fun r hr hu => ?_⟩
        · refine ⟨_, rfl, ?_⟩
          rw [Try.Misread, hauth]
          simpa using hor
        · obtain rfl := Option.some.inj hr
          rw [Try.Misread, hauth] at hm
          exact ⟨rfl, by simpa using hm⟩
        · obtain rfl := Option.some.inj hr
          cases hu

theorem errorStatus_not_success {status : ℕ} (h : errorStatus status = true) : successStatus status = false := by
  rw [errorStatus, decide_eq_true_iff] at h
  rw [successStatus, decide_eq_false_iff_not]
  omega

/-- Below 500 only a success accepts the message. -/
theorem response_accepts {status : ℕ} {text : String} {body : Body} {taken : Bool}
    (h : (Post.response status text body taken).accepts = true) :
    successStatus status = true ∨ errorStatus status = true ∧ (HttpKind.status status).ending = .uncertain := by
  rw [Post.accepts, Bool.or_eq_true, Bool.and_eq_true, decide_eq_true_iff] at h
  refine h.imp_right fun ⟨⟨hlow, hhigh⟩, _⟩ => ⟨?_, ?_⟩
  · rw [errorStatus, decide_eq_true_iff]
    omega
  · rw [HttpKind.ending, if_pos (by rw [openStatus, decide_eq_true_iff]; omega)]

/-- A course that the client ends with an error, and rightly so. -/
theorem fits_error (hne : c.ending ≠ .done) (hagreed : c.agreed = false)
    (haccepted : c.ending = .refused → c.accepted = false) (hmisread : ∀ r, c.route = some r → ¬ t.Misread r)
    (hunfinished : ∀ r, c.route = some r → ¬ t.Unfinished r) : c.Fits t := by
  refine ⟨fun h => absurd h hne, fun h hor => ?_, fun _ => hagreed, fun r hr hm => absurd hm (hmisread r hr),
    fun r hr hu => absurd hu (hunfinished r hr)⟩
  rw [haccepted h, hagreed] at hor
  exact absurd hor (by simp)

theorem error_fits {status : ℕ} {text : String} {body : Body} {taken : Bool} {route : Route}
    (hpost : t.post = .response status text body taken) (herror : errorStatus status = true)
    (hroute : route = .gmail ∨ route = .graph) (hcourse : c.route = some route)
    (hending : c.ending = (HttpKind.status status).ending) (haccepted : c.accepted = t.post.accepts)
    (hagreed : c.agreed = t.post.agrees) : c.Fits t := by
  have hsuccess := errorStatus_not_success herror
  refine fits_error (hending ▸ httpEnding_ne_done _) ?_ (fun hrefused => ?_) (fun r hr hm => ?_) (fun r hr hu => ?_)
  · rw [hagreed, hpost, Post.agrees, hsuccess]
  · rcases haccepts : t.post.accepts with - | -
    · rw [haccepted, haccepts]
    · rw [hpost] at haccepts
      rcases response_accepts haccepts with hs | ⟨-, huncertain⟩
      · rw [hsuccess] at hs
        cases hs
      · rw [hending, huncertain] at hrefused
        cases hrefused
  · obtain rfl := Option.some.inj (hcourse.symm.trans hr)
    rcases hroute with rfl | rfl
    · rw [Try.Misread, hpost, Post.agrees, hsuccess] at hm
      cases hm.1
    · cases hm
  · obtain rfl := Option.some.inj (hcourse.symm.trans hr)
    rcases hroute with rfl | rfl
    · rw [Try.Unfinished, hpost, Post.unfinished, herror] at hu
      cases hu.1
    · rw [Try.Unfinished, hpost, Post.unfinished, herror] at hu
      cases hu

/-- Without a response nothing is misread. -/
theorem lost_fits {route : Route} (hpost : t.post.agrees = false ∧ t.post.unfinished = false)
    (hroute : route = .gmail ∨ route = .graph) (hcourse : c.route = some route) (hne : c.ending ≠ .done)
    (haccepted : c.ending = .refused → c.accepted = false) (hagreed : c.agreed = t.post.agrees) : c.Fits t := by
  refine fits_error hne (hagreed.trans hpost.1) haccepted (fun r hr hm => ?_) (fun r hr hu => ?_)
  · obtain rfl := Option.some.inj (hcourse.symm.trans hr)
    rcases hroute with rfl | rfl
    · rw [Try.Misread, hpost.1] at hm
      cases hm.1
    · cases hm
  · obtain rfl := Option.some.inj (hcourse.symm.trans hr)
    rcases hroute with rfl | rfl
    · rw [Try.Unfinished, hpost.2] at hu
      cases hu.1
    · rw [Try.Unfinished, hpost.2] at hu
      cases hu

/-- A response that is no error: it accepts the message, or is taken to. -/
theorem response_fits {status : ℕ} {text : String} {body : Body} {taken : Bool} {route : Route}
    (hpost : t.post = .response status text body taken) (herror : errorStatus status = false)
    (hroute : route = .gmail ∧ t.post.readable = true ∨ route = .graph) (hcourse : c.route = some route)
    (hending : c.ending = .done) (haccepted : c.accepted = t.post.accepts) : c.Fits t := by
  have hunfinished : t.Unfinished route ↔ t.post.unfinished = true := by
    rcases hroute with ⟨rfl, hreadable⟩ | rfl
    · exact and_iff_left hreadable
    · exact Iff.rfl
  have hpos : t.post.unfinished = !successStatus status := by
    rw [hpost, Post.unfinished, herror]
    rfl
  refine ⟨fun _ => ?_, fun h => ?_, fun h => ?_, fun r hr hm => ?_, fun r hr hu => ⟨hending, ?_⟩⟩
  · cases hs : successStatus status with
    | true =>
      left
      simp [haccepted, hpost, Post.accepts, hs]
    | false => exact .inr ⟨route, hcourse, hunfinished.mpr (by rw [hpos, hs]; rfl)⟩
  · rw [hending] at h
    cases h
  · rw [hending] at h
    cases h
  · obtain rfl := Option.some.inj (hcourse.symm.trans hr)
    rcases hroute with ⟨rfl, hreadable⟩ | rfl
    · rw [Try.Misread, hreadable] at hm
      cases hm.2
    · cases hm
  · obtain rfl := Option.some.inj (hcourse.symm.trans hr)
    rw [hunfinished, hpos, Bool.not_eq_true'] at hu
    rcases haccepts : t.post.accepts with - | -
    · rw [haccepted, haccepts]
    · rw [hpost] at haccepts
      rcases response_accepts haccepts with hs | ⟨he, -⟩
      · rw [hu] at hs
        cases hs
      · rw [herror] at he
        cases he

/-- An answer of the Gmail API that is JSON but no object is an error to the client. -/
theorem unreadable_fits {status : ℕ} {text value : String} {taken : Bool}
    (hpost : t.post = .response status text (.value value) taken) (herror : errorStatus status = false)
    (hcourse : c.route = some .gmail) (hending : c.ending = .refused) (haccepted : c.accepted = t.post.accepts)
    (hagreed : c.agreed = t.post.agrees) : c.Fits t := by
  have hreadable : t.post.readable = false := by
    rw [hpost]
    rfl
  have hagrees : t.post.agrees = successStatus status := by
    rw [hpost]
    rfl
  refine ⟨fun h => ?_, fun _ hor => ⟨_, hcourse, ?_, hreadable⟩, fun h => ?_, fun r hr hm => ⟨hending, ?_⟩,
    fun r hr hu => ?_⟩
  · rw [hending] at h
    cases h
  · rw [haccepted, hagreed] at hor
    refine hor.elim (fun haccepts => ?_) id
    rw [hpost] at haccepts
    rcases response_accepts haccepts with hs | ⟨he, -⟩
    · rw [hagrees, hs]
    · rw [herror] at he
      cases he
  · rw [hending] at h
    cases h
  · obtain rfl := Option.some.inj (hcourse.symm.trans hr)
    rw [hagreed]
    exact hm.1
  · obtain rfl := Option.some.inj (hcourse.symm.trans hr)
    rw [Try.Unfinished, hreadable] at hu
    cases hu.2

theorem gmail_course_fits (t : Try) : t.post.courseGmail.Fits t := by
  rcases hpost : t.post with ⟨status, text, body, taken⟩ | ⟨loss, text, taken⟩ | text
  · by_cases herror : errorStatus status = true
    · exact error_fits hpost herror (.inl rfl) rfl (if_pos herror) (by rw [hpost]; rfl) (by rw [hpost]; rfl)
    · cases body with
      | object id =>
        exact response_fits hpost (Bool.not_eq_true _ ▸ herror) (.inl ⟨rfl, by rw [hpost]; rfl⟩) rfl (if_neg herror)
          (by rw [hpost]; rfl)
      | value text =>
        exact unreadable_fits hpost (Bool.not_eq_true _ ▸ herror) rfl (if_neg herror) (by rw [hpost]; rfl)
          (by rw [hpost]; rfl)
  · exact lost_fits (by rw [hpost]; exact ⟨rfl, rfl⟩) (.inl rfl) rfl (fun h => (nomatch h)) (fun h => (nomatch h))
      (by rw [hpost]; rfl)
  · exact lost_fits (by rw [hpost]; exact ⟨rfl, rfl⟩) (.inl rfl) rfl (fun h => (nomatch h)) (fun _ => rfl)
      (by rw [hpost]; rfl)

theorem graph_course_fits (t : Try) : t.post.courseGraph.Fits t := by
  rcases hpost : t.post with ⟨status, text, body, taken⟩ | ⟨loss, text, taken⟩ | text
  · by_cases herror : errorStatus status = true
    · exact error_fits hpost herror (.inr rfl) rfl (if_pos herror) (by rw [hpost]; rfl) (by rw [hpost]; rfl)
    · exact response_fits hpost (Bool.not_eq_true _ ▸ herror) (.inr rfl) rfl (if_neg herror) (by rw [hpost]; rfl)
  · exact lost_fits (by rw [hpost]; exact ⟨rfl, rfl⟩) (.inr rfl) rfl (fun h => (nomatch h)) (fun h => (nomatch h))
      (by rw [hpost]; rfl)
  · exact lost_fits (by rw [hpost]; exact ⟨rfl, rfl⟩) (.inr rfl) rfl (fun h => (nomatch h)) (fun _ => rfl)
      (by rw [hpost]; rfl)

theorem smtpCourse_fits (t : Try) (account : Account) : (t.smtpCourse account).Fits t := by
  rw [Try.smtpCourse]
  split
  · exact fits_unsent (by decide)
  · split
    · exact fits_unsent (by decide)
    · exact smtp_course_fits t

theorem xoauthCourse_fits (t : Try) : t.xoauthCourse.Fits t := by
  rw [Try.xoauthCourse]
  split
  · exact fits_unsent (by decide)
  · exact xoauth_course_fits t

theorem withToken_fits {next : Course} (h : next.Fits t) : (t.withToken account next).Fits t := by
  rw [Try.withToken]
  split
  · exact fits_unsent (by decide)
  · exact fits_unsent (raisedEnding_ne_done _)
  · exact h

theorem oauthCourse_fits (t : Try) (py : Python) (payload : Payload) (account : Account) :
    (t.oauthCourse py payload account).Fits t := by
  simp only [Try.oauthCourse]
  split_ifs
  · refine withToken_fits ?_
    split_ifs
    · exact xoauthCourse_fits t
    · split
      · exact fits_unsent (httpEnding_ne_done _)
      · exact gmail_course_fits t
      · exact xoauthCourse_fits t
    · exact gmail_course_fits t
  · exact withToken_fits (xoauthCourse_fits t)
  · rw [Try.graphCourse]
    split_ifs
    · exact fits_unsent (by decide)
    · exact withToken_fits (graph_course_fits t)
  · exact fits_unsent (by decide)

theorem dispatchTo_ok {α : Type} {password oauth chosen : α}
    (h : dispatchTo py account payload password oauth = .ok (chosen, folder)) :
    chosen = password ∨ chosen = oauth := by
  simp only [dispatchTo] at h
  split_ifs at h
  · exact .inl (Prod.mk.inj (Except.ok.inj h)).1.symm
  · exact .inr (Prod.mk.inj (Except.ok.inj h)).1.symm
  · exact .inl (Prod.mk.inj (Except.ok.inj h)).1.symm
  · exact .inr (Prod.mk.inj (Except.ok.inj h)).1.symm

theorem course_fits (h : t.course py payload = some (c, folder)) : c.Fits t := by
  rw [Try.course] at h
  split at h
  · cases h
  · rename_i account haccount
    split at h
    · cases h
    · obtain ⟨_, -, hdispatch⟩ := except_bind_ok (toOption_eq_some h)
      rcases dispatchTo_ok hdispatch with rfl | rfl
      · exact smtpCourse_fits t account
      · exact oauthCourse_fits t py payload account

/-! ### The report -/

theorem status_of_error {attempts : ℕ} {e : Raised} :
    (reportOf attempts (.error e)).status = if e.kind.retryable then .retry
      else if e.kind = .unsupported then .unsupported else .failed := by
  obtain ⟨kind, text⟩ := e
  cases kind with
  | http status =>
    rw [reportOf]
    dsimp only
    by_cases hretry : (Kind.http status).retryable = true
    · rw [if_pos hretry, if_pos hretry]
    · rw [if_neg hretry, if_neg hretry, if_neg (fun h => by cases h)]
  | _ => rfl

theorem status_of_error_ne {attempts : ℕ} {e : Raised} : (reportOf attempts (.error e)).status ≠ .succeeded := by
  rw [status_of_error]
  split_ifs <;> decide

theorem report_unsent (h : t.course py payload = none) : (t.report py payload).status ≠ .succeeded := by
  have hfollows := sending_follows t py payload 0
  rw [h] at hfollows
  rcases hsending : (t.attempt py payload 0).sending py payload with - | p
  · rw [Attempt.sending, Try.attempt] at hsending
    rw [Try.report]
    dsimp only at hsending
    rcases haccount : t.account with - | account
    · rw [processJob]
      split <;> decide
    · rw [haccount] at hsending
      dsimp only at hsending
      rw [processJob]
      split
      · decide
      · rename_i hcan
        rw [if_neg hcan] at hsending
        rw [executeOutbound]
        rcases hout : sendingOf py account payload (t.script py payload) with e | p
        · exact status_of_error_ne
        · rw [hout] at hsending
          cases hsending
  · rw [hsending] at hfollows
    cases hfollows

/-- The report on an attempt that comes to sending. -/
theorem report_sent (h : t.course py payload = some (c, folder)) : ∃ account s, t.account = some account ∧
    s.Follows c ∧ t.report py payload = reportOf t.attempts
      (afterReconcile s ((sentMatches py account payload (t.script py payload) folder).map single)) := by
  have hfollows := sending_follows t py payload 0
  rw [h] at hfollows
  rcases hsending : (t.attempt py payload 0).sending py payload with - | ⟨s, folder'⟩
  · rw [hsending] at hfollows
    cases hfollows
  · rw [hsending] at hfollows
    cases hfollows with
    | some hs =>
      obtain ⟨hs, hfolder⟩ := hs
      obtain rfl : folder' = folder := hfolder
      obtain ⟨account, haccount, hcan, hsend⟩ := Attempt.sending_eq hsending
      exact ⟨account, s, haccount, hs, processJob_eq haccount hcan hsend⟩

theorem status_done {attempts : ℕ} {r : Except Raised (Option String)} (hs : s.ending = .done) :
    (reportOf attempts (afterReconcile s r)).status = .succeeded := by
  rw [afterReconcile]
  rw [Sending.ending] at hs
  cases hout : s.outcome with
  | ok id => rfl
  | error e =>
    rw [hout] at hs
    exact absurd hs (raisedEnding_ne_done e.kind)

theorem status_refused {attempts : ℕ} {r : Except Raised (Option String)} (hs : s.ending = .refused) :
    (reportOf attempts (afterReconcile s r)).status ≠ .succeeded := by
  rw [afterReconcile]
  rw [Sending.ending] at hs
  cases hout : s.outcome with
  | ok id =>
    rw [hout] at hs
    cases hs
  | error e =>
    rw [hout] at hs
    dsimp only at hs
    have hkind : e.kind ≠ .outcomeUnknown := by
      intro hkind
      rw [Kind.ending, if_pos hkind] at hs
      cases hs
    dsimp only
    rw [if_neg hkind]
    exact status_of_error_ne

/-- What an uncertain sending is reported as: the search of the Sent folder decides. -/
def searchStatus : Except Raised (List String) → Status
  | .ok [_] => .succeeded
  | .ok _ => .retry
  | .error e => if e.kind.retryable then .retry else if e.kind = .unsupported then .unsupported else .failed

theorem status_uncertain {attempts : ℕ} {found : Except Raised (List String)} (hs : s.ending = .uncertain) :
    (reportOf attempts (afterReconcile s (found.map single))).status = searchStatus found := by
  rw [afterReconcile]
  rw [Sending.ending] at hs
  cases hout : s.outcome with
  | ok id =>
    rw [hout] at hs
    cases hs
  | error e =>
    rw [hout] at hs
    dsimp only at hs
    have hkind : e.kind = .outcomeUnknown := by
      by_contra hkind
      rw [Kind.ending, if_neg hkind] at hs
      cases hs
    have hretry : (reportOf attempts (.error e)).status = .retry := by
      rw [status_of_error, hkind]
      rfl
    dsimp only
    rw [if_pos hkind]
    rcases found with lost | found
    · dsimp only [Except.map]
      by_cases hlost : lost.kind = .reconcile
      · rw [if_pos hlost, hretry, searchStatus, hlost]
        rfl
      · rw [if_neg hlost, status_of_error, searchStatus]
    · rcases found with - | ⟨id, - | ⟨id', found⟩⟩
      · exact hretry
      · rfl
      · exact hretry

/-! ### What a report promises, and when it is kept -/

/-- The provider has accepted the message in one of the attempts. -/
def AcceptedIn (py : Python) (payload : Payload) (attempts : List Try) : Prop :=
  ∃ t ∈ attempts, t.accepted py payload = true

/-- The report on an attempt after the earlier ones says what is true. -/
structure Try.Truthful (t : Try) (py : Python) (payload : Payload) (earlier : List Try) : Prop where
  succeeded : (t.report py payload).status = .succeeded → AcceptedIn py payload (t :: earlier)
  failed : (t.report py payload).status = .failed ∨ (t.report py payload).status = .unsupported →
    t.accepted py payload = false
  agreed : t.agreed py payload = true → (t.report py payload).status = .succeeded

/-- Nothing misleads the client: no acceptance is misread as a refusal, no other response as an
    acceptance, and if the sending ends without an answer, a single mail that passes for the message is
    it, and a search that breaks off with an error that is not retried follows no acceptance. -/
structure Try.Clear (t : Try) (py : Python) (payload : Payload) (earlier : List Try) : Prop where
  read : ∀ c folder r, t.course py payload = some (c, folder) → c.route = some r → ¬ t.Misread r
  finished : ∀ c folder r, t.course py payload = some (c, folder) → c.route = some r → t.Unfinished r →
    AcceptedIn py payload earlier
  found : ∀ account c folder id, t.account = some account → t.course py payload = some (c, folder) →
    c.ending = .uncertain → sentMatches py account payload (t.script py payload) folder = .ok [id] →
    AcceptedIn py payload (t :: earlier)
  searched : ∀ account c folder e, t.account = some account → t.course py payload = some (c, folder) →
    c.ending = .uncertain → sentMatches py account payload (t.script py payload) folder = .error e →
    e.kind.retryable = false → t.accepted py payload = false

variable {earlier : List Try}

theorem accepted_eq (h : t.course py payload = some (c, folder)) :
    t.accepted py payload = c.accepted ∧ t.agreed py payload = c.agreed := by
  rw [Try.accepted, Try.agreed, h]
  exact ⟨rfl, rfl⟩

theorem acceptedIn_cons : AcceptedIn py payload (t :: earlier) ↔
    t.accepted py payload = true ∨ AcceptedIn py payload earlier := by
  simp [AcceptedIn]

theorem clear_of_truthful (h : t.Truthful py payload earlier) : t.Clear py payload earlier := by
  refine ⟨fun c folder r hcourse hroute hmis => ?_, fun c folder r hcourse hroute hunf => ?_,
    fun account c folder id haccount hcourse hend hfound => ?_,
    fun account c folder e haccount hcourse hend hsearch hkind => ?_⟩
  · obtain ⟨hrefused, hagreed⟩ := (course_fits hcourse).misread r hroute hmis
    obtain ⟨account, s, -, hfollows, hreport⟩ := report_sent hcourse
    have hsucceeded := h.agreed ((accepted_eq hcourse).2.trans hagreed)
    rw [hreport] at hsucceeded
    exact absurd hsucceeded (status_refused (hfollows.ending.trans hrefused))
  · obtain ⟨hdone, hnot⟩ := (course_fits hcourse).unfinished r hroute hunf
    obtain ⟨account, s, -, hfollows, hreport⟩ := report_sent hcourse
    have haccepted := h.succeeded (by rw [hreport, status_done (hfollows.ending.trans hdone)])
    rw [acceptedIn_cons, (accepted_eq hcourse).1, hnot] at haccepted
    exact haccepted.resolve_left (by decide)
  · obtain ⟨account', s, haccount', hfollows, hreport⟩ := report_sent hcourse
    obtain rfl := Option.some.inj (haccount.symm.trans haccount')
    refine h.succeeded ?_
    rw [hreport, status_uncertain (hfollows.ending.trans hend), hfound]
    rfl
  · obtain ⟨account', s, haccount', hfollows, hreport⟩ := report_sent hcourse
    obtain rfl := Option.some.inj (haccount.symm.trans haccount')
    refine h.failed ?_
    rw [hreport, status_uncertain (hfollows.ending.trans hend), hsearch, searchStatus, hkind]
    by_cases hunsupported : e.kind = .unsupported
    · exact .inr (if_pos hunsupported)
    · exact .inl (if_neg hunsupported)

theorem truthful_of_clear (h : t.Clear py payload earlier) : t.Truthful py payload earlier := by
  rcases hcourse : t.course py payload with - | ⟨c, folder⟩
  · have hnone : t.accepted py payload = false ∧ t.agreed py payload = false := by
      rw [Try.accepted, Try.agreed, hcourse]
      exact ⟨rfl, rfl⟩
    refine ⟨fun hs => absurd hs (report_unsent hcourse), fun _ => hnone.1, fun hagreed => ?_⟩
    rw [hnone.2] at hagreed
    cases hagreed
  obtain ⟨haccepted, hagreed⟩ := accepted_eq hcourse
  have hfits := course_fits hcourse
  obtain ⟨account, s, haccount, hfollows, hreport⟩ := report_sent hcourse
  cases hend : c.ending with
  | done =>
    have hstatus : (t.report py payload).status = .succeeded := by
      rw [hreport, status_done (hfollows.ending.trans hend)]
    refine ⟨fun _ => acceptedIn_cons.mpr ?_, fun hs => ?_, fun _ => hstatus⟩
    · rw [haccepted]
      exact (hfits.done hend).imp_right fun ⟨r, hr, hu⟩ => h.finished c folder r hcourse hr hu
    · rw [hstatus] at hs
      exact absurd hs (by decide)
  | refused =>
    have hstatus : (t.report py payload).status ≠ .succeeded := by
      rw [hreport]
      exact status_refused (hfollows.ending.trans hend)
    have hnone : ¬ (c.accepted = true ∨ c.agreed = true) := fun hor =>
      have ⟨r, hr, hm⟩ := hfits.refused hend hor
      h.read c folder r hcourse hr hm
    rw [not_or, Bool.not_eq_true, Bool.not_eq_true] at hnone
    refine ⟨fun hs => absurd hs hstatus, fun _ => haccepted.trans hnone.1, fun hs => ?_⟩
    rw [hagreed, hnone.2] at hs
    cases hs
  | uncertain =>
    have hstatus : (t.report py payload).status =
        searchStatus (sentMatches py account payload (t.script py payload) folder) := by
      rw [hreport, status_uncertain (hfollows.ending.trans hend)]
    have hnot : t.agreed py payload = false := hagreed.trans (hfits.uncertain hend)
    rcases hsearch : sentMatches py account payload (t.script py payload) folder with e | found
    · rw [hsearch, searchStatus] at hstatus
      refine ⟨fun hs => ?_, fun hs => ?_, fun hs => ?_⟩
      · rw [hstatus] at hs
        split_ifs at hs
      · by_cases hretry : e.kind.retryable = true
        · rw [hstatus, if_pos hretry] at hs
          exact absurd hs (by decide)
        · exact h.searched account c folder e haccount hcourse hend hsearch (Bool.not_eq_true _ ▸ hretry)
      · rw [hnot] at hs
        cases hs
    · rw [hsearch] at hstatus
      refine ⟨fun hs => ?_, fun hs => ?_, fun hs => ?_⟩
      · rcases found with - | ⟨id, - | ⟨id', found⟩⟩
        · exact absurd (hstatus.symm.trans hs) (by simp [searchStatus])
        · exact h.found account c folder id haccount hcourse hend hsearch
        · exact absurd (hstatus.symm.trans hs) (by simp [searchStatus])
      · rw [hstatus] at hs
        rcases found with - | ⟨id, - | ⟨id', found⟩⟩ <;> exact absurd hs (by simp [searchStatus])
      · rw [hnot] at hs
        cases hs

def gmailAccount : Account :=
  ⟨"a1", "imap_gmail", "me@gmail.com", "", some [], true, false, "smtp.gmail.com"⟩

def gmailPayload : Payload := ⟨"me@gmail.com", "you@example.org", "hello", none, none, none⟩

/-- A server that accepts everything, the authentication with 235. -/
def acceptingServer : SmtpServer :=
  ⟨.ok (), .reply 235 "2.7.0 Accepted", .ok (), .reply 250 "ok", .reply 250 "ok", .reply 354 "go ahead",
    .reply 250 "ok", true⟩

def gmailTry : Try :=
  ⟨some gmailAccount, false, 1, .ok (), .ok (), acceptingServer, .ok (), .ok [], .raised "", emptySentFolder, noGraph, 0,
    ⟨7, ⟨.absent, ""⟩, ⟨none, "hello", none⟩⟩⟩

end OneMail.Outbound
