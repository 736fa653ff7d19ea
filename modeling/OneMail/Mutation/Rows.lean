import OneMail.Js.JsString

/-! Rows of the mutation queue and the pure decisions of `mutation_jobs.ts`.

    An `EmailRow` is what `loadMutableEmail` reads, a `JobRow` a row of `mail_mutation_jobs` with
    its rowid. `planMutation` is everything a user request decides from the row it loaded before it
    touches the queue; `normalizedMoveProjection` is what a succeeded move report must present. -/

namespace OneMail.Mutation
open JsString

inductive Operation where | setRead | setStarred | move | delete
  deriving DecidableEq

inductive JobStatus where | pending | processing | succeeded | failed | unsupported | superseded
  deriving DecidableEq

inductive Provider where | native | imap | graph
  deriving DecidableEq

/-- What an aggregator may report for a job. -/
inductive ReportStatus where | succeeded | retry | failed | unsupported
  deriving DecidableEq

def maxAttempts : ℕ := 5
def maxClaim : ℕ := 50
def leaseMs : ℕ := 60000
def maxRetryMs : ℤ := 5 * 60000

/-- A status no statement of the queue leaves again. -/
def JobStatus.terminal : JobStatus → Bool
  | .pending | .processing => false
  | _ => true

structure EmailRow where
  id : JsString
  source : Option JsString
  accountId : Option JsString
  toAddr : Option JsString
  isRead : Option ℕ
  isStarred : Option ℕ
  provider : Option JsString
  sourceFolder : Option JsString
  sourceFolderId : Option JsString
  providerMessageId : Option JsString
  sourceKey : Option JsString
  imapUid : Option JsString
  messageIdHeader : Option JsString
  updatedAt : Option ℕ
  deriving DecidableEq

/-- Two columns that a partial unique index keeps apart. -/
def sameKey {α : Type} [DecidableEq α] (a b : Option α) : Bool := a.isSome && a = b

/-- The unique indexes of `emails`: the id, the legacy UID, the source key and the provider's identity. -/
def EmailRow.conflicts (row row' : EmailRow) : Bool :=
  row.id = row'.id || sameKey row.imapUid row'.imapUid || sameKey row.sourceKey row'.sourceKey ||
    sameKey row.accountId row'.accountId && sameKey row.provider row'.provider &&
      sameKey row.providerMessageId row'.providerMessageId

structure JobRow where
  rowid : ℕ
  id : JsString
  emailId : JsString
  accountId : Option JsString
  source : Option JsString
  toAddr : Option JsString
  provider : Provider
  operation : Operation
  desiredValue : Option ℕ
  sourceFolder : Option JsString
  sourceFolderId : Option JsString
  targetFolder : Option JsString
  targetFolderId : Option JsString
  providerMessageId : Option JsString
  sourceKey : Option JsString
  messageIdHeader : Option JsString
  status : JobStatus
  attempts : ℕ
  nextAttemptAt : ℕ
  leaseToken : Option JsString
  leaseUntil : Option ℕ
  lastError : Option JsString
  createdAt : ℕ
  updatedAt : ℕ
  completedAt : Option ℕ
  deriving DecidableEq

/-- The two columns of `mail_account_folders` that a move reads of its target. -/
structure UnifiedFolderRow where
  canonicalName : JsString
  providerFolderId : Option JsString
  deriving DecidableEq

def isLocationOperation (operation : Operation) : Bool :=
  operation = .move || operation = .delete

/-- The flag column of `emails` that an absolute desired-state write owns. -/
inductive FlagColumn where | isRead | isStarred
  deriving DecidableEq

def desiredStateColumn : Operation → Option FlagColumn
  | .setRead => some .isRead
  | .setStarred => some .isStarred
  | _ => none

def EmailRow.flag (row : EmailRow) : FlagColumn → Option ℕ
  | .isRead => row.isRead
  | .isStarred => row.isStarred

def boundedText (value : Option JsString) (max : ℕ) : Option JsString :=
  match value with
  | none => none
  | some s => if (trim s).isEmpty || max < (trim s).length then none else some (trim s)

theorem boundedText_ne_nil {value : Option JsString} {max : ℕ} {s : JsString}
    (h : boundedText value max = some s) : s ≠ [] := by
  unfold boundedText at h
  split at h
  · cases h
  · split at h
    · cases h
    · rename_i hne
      obtain rfl := Option.some.inj h
      intro hnil
      simp [hnil] at hne

/-! ### What a user request decides -/

def inferMutationProvider (row : EmailRow) : JsString :=
  let explicit := toLowerCase (trim (row.provider.getD []))
  let key := toLowerCase ((orElse row.sourceKey row.imapUid).getD [])
  let source := toLowerCase (row.source.getD [])
  if explicit ≠ [] then explicit
  else if startsWith key (js "graph:") then js "graph"
  else if startsWith key (js "pop3:") then js "pop3"
  else if key ≠ [] then js "imap"
  else if source = js "cf_routing" ∨ source = js "cloudflare" then js "native"
  else if source = js "graph_outlook" then js "graph"
  else if startsWith source (js "imap_") then js "imap"
  else js "unknown"

/-- `providerMutationSupport`: the provider that carries the mutation, or the code of the refusal. -/
def providerMutationSupport (row : EmailRow) : Except String Provider :=
  let provider := inferMutationProvider row
  if provider = js "native" then .ok .native
  else if ¬ truthy row.accountId then .error "missing_mail_account_identity"
  else if provider = js "pop3" then .error "provider_write_unsupported"
  else if provider = js "graph" then
    if truthy row.providerMessageId then .ok .graph
    else .error "missing_provider_message_identity"
  else if provider = js "imap" then
    if truthy row.sourceFolder ∧ truthy (orElse row.sourceKey row.imapUid) then .ok .imap
    else .error "missing_imap_message_identity"
  else .error "provider_write_unsupported"

/-- The parsed request. `state` carries an operation and the explicit desired value; a move carries
    the folder that `resolveMoveTarget` found. -/
inductive Request where
  | state (column : FlagColumn) (explicitDesired : Option ℕ)
  | move (target : Option UnifiedFolderRow)
  | delete
  deriving DecidableEq

/-- What `queueExternalMutation` is called with. -/
structure Intent where
  provider : Provider
  operation : Operation
  desired : Option ℕ
  target : Option UnifiedFolderRow
  deriving DecidableEq

def flagOperation : FlagColumn → Operation
  | .isRead => .setRead
  | .isStarred => .setStarred

/-- The desired value of `mutateMessageState`: the explicit one, else the toggled current one. -/
def desiredFlag (row : EmailRow) (column : FlagColumn) (explicitDesired : Option ℕ) : ℕ :=
  if explicitDesired = some 0 then 0
  else if explicitDesired = some 1 then 1
  else if row.flag column = some 1 then 0 else 1

def sameFolder (row : EmailRow) (target : UnifiedFolderRow) : Bool :=
  if truthy target.providerFolderId && truthy row.sourceFolderId then
    target.providerFolderId = row.sourceFolderId
  else some target.canonicalName = row.sourceFolder

/-- `mutateMessageState`, `moveEmail` and `deleteEmail` up to their call of
    `queueExternalMutation`; `none` stands for every answer given without queueing a job
    (unsupported, native, same folder, no such folder). -/
def planMutation (row : EmailRow) (request : Request) : Option Intent :=
  match providerMutationSupport row with
  | .error _ | .ok .native => none
  | .ok provider =>
    match request with
    | .state column explicitDesired =>
      some ⟨provider, flagOperation column, some (desiredFlag row column explicitDesired), none⟩
    | .delete => some ⟨provider, .delete, none, none⟩
    | .move target =>
      if provider = .imap ∧ boundedText row.messageIdHeader 4096 = none then none
      else match target with
        | none => none
        | some folder =>
          if provider = .graph ∧ boundedText folder.providerFolderId 2048 = none then none
          else if sameFolder row folder then none
          else some ⟨provider, .move, none, some folder⟩

/-- The row that the INSERT of `queueExternalMutation` writes. -/
def newJob (rowid : ℕ) (row : EmailRow) (intent : Intent) (id : JsString) (now : ℕ) : JobRow where
  rowid := rowid
  id := id
  emailId := row.id
  accountId := row.accountId
  source := row.source
  toAddr := row.toAddr
  provider := intent.provider
  operation := intent.operation
  desiredValue := intent.desired
  sourceFolder := row.sourceFolder
  sourceFolderId := row.sourceFolderId
  targetFolder := intent.target.map (·.canonicalName)
  targetFolderId := intent.target.bind (·.providerFolderId)
  providerMessageId := row.providerMessageId
  sourceKey := orElse row.sourceKey row.imapUid
  messageIdHeader := row.messageIdHeader
  status := .pending
  attempts := 0
  nextAttemptAt := 0
  leaseToken := none
  leaseUntil := none
  lastError := none
  createdAt := now
  updatedAt := now
  completedAt := none

/-! ### Provider identity -/

/-- Where the provider keeps the message: the four columns a job copies from its email. -/
structure Identity where
  sourceFolder : Option JsString
  sourceFolderId : Option JsString
  sourceKey : Option JsString
  providerMessageId : Option JsString
  deriving DecidableEq

def EmailRow.identity (row : EmailRow) : Identity :=
  ⟨row.sourceFolder, row.sourceFolderId, orElse row.sourceKey row.imapUid, row.providerMessageId⟩

def JobRow.identity (job : JobRow) : Identity :=
  ⟨job.sourceFolder, job.sourceFolderId, job.sourceKey, job.providerMessageId⟩

@[simp] theorem newJob_identity (rowid : ℕ) (row : EmailRow) (intent : Intent) (id : JsString)
    (now : ℕ) : (newJob rowid row intent id now).identity = row.identity := rfl

/-- The projection body of a report; a field that is not a string reads as `none`. -/
structure MutationProjection where
  sourceFolder : Option JsString
  sourceFolderId : Option JsString
  sourceKey : Option JsString
  providerMessageId : Option JsString
  deriving DecidableEq

structure MoveProjection where
  sourceFolder : JsString
  sourceFolderId : Option JsString
  sourceKey : JsString
  providerMessageId : Option JsString
  deriving DecidableEq

def MoveProjection.identity (p : MoveProjection) : Identity :=
  ⟨some p.sourceFolder, p.sourceFolderId, some p.sourceKey, p.providerMessageId⟩

def normalizedMoveProjection (job : JobRow) (projection : Option MutationProjection) :
    Option MoveProjection :=
  match boundedText (projection.bind (·.sourceFolder)) 1024,
      boundedText (projection.bind (·.sourceKey)) 4096 with
  | some sourceFolder, some sourceKey =>
    if ¬ truthy job.targetFolder ∨ some sourceFolder ≠ job.targetFolder then none
    else match job.provider with
      | .imap =>
        if some sourceKey = job.sourceKey then none
        else some ⟨sourceFolder, none, sourceKey, job.providerMessageId⟩
      | .graph =>
        let sourceFolderId := boundedText (projection.bind (·.sourceFolderId)) 2048
        let providerMessageId := boundedText (projection.bind (·.providerMessageId)) 4096
        if ¬ truthy job.targetFolderId ∨ sourceFolderId ≠ job.targetFolderId then none
        else if ¬ truthy job.providerMessageId ∨ providerMessageId ≠ job.providerMessageId then none
        else some ⟨sourceFolder, sourceFolderId, sourceKey, providerMessageId⟩
      | .native => none
  | _, _ => none

/-- An accepted projection names a source key, so it never falls back to the IMAP uid. -/
theorem sourceKey_ne_nil {job : JobRow} {projection : Option MutationProjection}
    {p : MoveProjection} (h : normalizedMoveProjection job projection = some p) :
    p.sourceKey ≠ [] := by
  unfold normalizedMoveProjection at h
  split at h
  · rename_i hkey
    have hne := boundedText_ne_nil hkey
    split at h
    · cases h
    · split at h
      · split at h
        · cases h
        · obtain rfl := Option.some.inj h; exact hne
      · dsimp only at h
        split at h
        · cases h
        · split at h
          · cases h
          · obtain rfl := Option.some.inj h; exact hne
      · cases h
  · cases h

end OneMail.Mutation
