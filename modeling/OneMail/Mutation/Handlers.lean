import OneMail.Mutation.Statements

/-! The mutation handlers of one store, run without interruption (`mutation_jobs.ts`).

    `markRead`, `markUnread`, `toggleStar`, `moveEmail` and `deleteEmail` load a row, check the caller's
    access to it, and then decline, write the row, or queue a job for it. Which rows the lookup can see and
    what the caller may touch are parameters: the gateway and the shards fill them in differently. -/

namespace OneMail.Mutation
open JsString Table

/-- A row of `mail_account_folders`. -/
structure FolderRow where
  id : ℤ
  mailAccountId : JsString
  provider : JsString
  folder : UnifiedFolderRow
  deriving DecidableEq

/-- What the handlers read and write of one database. -/
structure Site where
  store : Store
  folders : List FolderRow
  deriving DecidableEq

/-- A user request with its parsed body: the number `is_starred` as a flag, the number `folder_id`. -/
inductive Action where
  | read
  | unread
  | star (isStarred : Option Bool)
  | move (folderId : Option ℤ)
  | delete
  deriving DecidableEq

/-- The JSON answers of the handlers, and of the endpoints that call them. -/
inductive Reply where
  | row (email : EmailRow)
  | error (status : ℕ) (text : String)
  | unsupported (provider : JsString) (code : String) (operation : Operation)
  | succeeded (operation : Operation) (desired : Option ℕ)
  | queued (job : JsString) (intent : Intent)
  | unavailable (degraded : List JsString)
  deriving DecidableEq

def Reply.status : Reply → ℕ
  | .row _ | .succeeded _ _ => 200
  | .queued _ _ => 202
  | .unsupported _ _ _ => 409
  | .unavailable _ => 503
  | .error status _ => status

/-- What a handler leaves behind: its answer, and the row it wrote or queued a job for. -/
structure Handled where
  site : Site
  reply : Reply
  wrote : Option EmailRow

def declined (site : Site) (reply : Reply) : Handled := ⟨site, reply, none⟩

def Provider.name : Provider → JsString
  | .native => js "native"
  | .imap => js "imap"
  | .graph => js "graph"

def maxSafeInteger : ℤ := 2 ^ 53 - 1

def resolveMoveTarget (folders : List FolderRow) (accountId provider : JsString) (folderId : ℤ) :
    Option UnifiedFolderRow :=
  if folderId ≤ 0 ∨ maxSafeInteger < folderId then none
  else (folders.find? fun f => f.id = folderId && f.mailAccountId = accountId && f.provider = provider).map
    (·.folder)

/-- `mutationEmailSelect`; `kept` is the condition a caller has added to it. -/
def loadMutableEmail (kept : EmailRow → Bool) (site : Site) (id : JsString) : Option EmailRow :=
  site.store.emails.find? fun row => row.id = id && kept row

def nextRowid (jobs : List JobRow) : ℕ := jobs.foldr (fun j n => max (j.rowid + 1) n) 1

def withStore (site : Site) (f : Store → Store) : Site := { site with store := f site.store }

def updateNativeState (site : Site) (row : EmailRow) (column : FlagColumn) (desired : ℕ) : Handled :=
  ⟨withStore site fun s => { s with emails := projectFlag column desired s.clock row.id s.emails },
    .succeeded (flagOperation column) (some desired), some row⟩

/-- The INSERT, the supersede statement and, for a desired state, the UPDATE of `emails`. -/
def queueExternalMutation (site : Site) (row : EmailRow) (intent : Intent) (id : JsString) : Handled :=
  let s := site.store
  let jobs := supersedeOlderPendingIntent row intent.operation id s.clock
    (s.jobs ++ [newJob (nextRowid s.jobs) row intent id s.clock])
  let emails := match desiredStateColumn intent.operation, intent.desired with
    | some column, some desired =>
      if desired = 0 ∨ desired = 1 then projectFlag column desired s.clock row.id s.emails else s.emails
    | _, _ => s.emails
  ⟨withStore site fun s => { s with jobs := jobs, emails := emails }, .queued id intent, some row⟩

def mutateMessageState (site : Site) (row : EmailRow) (job : JsString) (column : FlagColumn)
    (explicitDesired : Option ℕ) : Handled :=
  let desired := desiredFlag row column explicitDesired
  match providerMutationSupport row with
  | .error code =>
    declined site (.unsupported (inferMutationProvider row) code (flagOperation column))
  | .ok .native => updateNativeState site row column desired
  | .ok provider => queueExternalMutation site row ⟨provider, flagOperation column, some desired, none⟩ job

def moveEmail (site : Site) (row : EmailRow) (job : JsString) (folderId : Option ℤ) : Handled :=
  match providerMutationSupport row with
  | .error code => declined site (.unsupported (inferMutationProvider row) code .move)
  | .ok .native => declined site (.unsupported (js "native") "native_folder_move_unsupported" .move)
  | .ok provider =>
    if provider = .imap ∧ boundedText row.messageIdHeader 4096 = none then
      declined site (.unsupported (js "imap") "missing_imap_message_id" .move)
    else match folderId, row.accountId with
      | some folderId, some accountId =>
        if folderId ≤ 0 ∨ maxSafeInteger < folderId ∨ accountId = [] then
          declined site (.error 400 "valid folder_id required")
        else match resolveMoveTarget site.folders accountId provider.name folderId with
          | none => declined site (.error 400 "target folder not found for this mail account")
          | some target =>
            if provider = .graph ∧ boundedText target.providerFolderId 2048 = none then
              declined site (.unsupported (js "graph") "missing_provider_folder_identity" .move)
            else if sameFolder row target then declined site (.succeeded .move none)
            else queueExternalMutation site row ⟨provider, .move, none, some target⟩ job
      | _, _ => declined site (.error 400 "valid folder_id required")

def deleteEmail (site : Site) (row : EmailRow) (job : JsString) : Handled :=
  match providerMutationSupport row with
  | .error code => declined site (.unsupported (inferMutationProvider row) code .delete)
  | .ok .native =>
    ⟨withStore site fun s => { s with emails := s.emails.filter (·.id ≠ row.id) },
      .succeeded .delete none, some row⟩
  | .ok provider => queueExternalMutation site row ⟨provider, .delete, none, none⟩ job

/-- The handler of an action, after the lookup and the access check that all of them start with. -/
def act (site : Site) (row : EmailRow) (job : JsString) : Action → Handled
  | .read => mutateMessageState site row job .isRead (some 1)
  | .unread => mutateMessageState site row job .isRead (some 0)
  | .star isStarred => mutateMessageState site row job .isStarred (isStarred.map Bool.toNat)
  | .move folderId => moveEmail site row job folderId
  | .delete => deleteEmail site row job

def handle (kept access : EmailRow → Bool) (action : Action) (id job : JsString) (site : Site) : Handled :=
  match loadMutableEmail kept site id with
  | none => declined site (.error 404 "not found")
  | some row => if access row then act site row job action else declined site (.error 403 "forbidden")

/-! ### What a handler can do -/

variable {site : Site} {row : EmailRow} {job id : JsString} {kept access : EmailRow → Bool} {action : Action}

/-- A handler declines, or it has written for the row it was called with. -/
def Handled.Settled (site : Site) (row : EmailRow) (h : Handled) : Prop :=
  h.wrote = none ∧ h.site = site ∨ h.wrote = some row

theorem declined_settled (reply : Reply) : (declined site reply).Settled site row := .inl ⟨rfl, rfl⟩

theorem queue_settled (intent : Intent) :
    (queueExternalMutation site row intent job).Settled site row := .inr rfl

theorem mutateMessageState_settled (column : FlagColumn) (explicitDesired : Option ℕ) :
    (mutateMessageState site row job column explicitDesired).Settled site row := by
  unfold mutateMessageState
  rcases providerMutationSupport row with code | _ | _ | _
  · exact declined_settled _
  · exact .inr rfl
  · exact queue_settled _
  · exact queue_settled _

theorem moveEmail_settled (folderId : Option ℤ) : (moveEmail site row job folderId).Settled site row := by
  unfold moveEmail
  split
  · exact declined_settled _
  · exact declined_settled _
  · split
    · exact declined_settled _
    · split
      · split
        · exact declined_settled _
        · split
          · exact declined_settled _
          · split
            · exact declined_settled _
            · split
              · exact declined_settled _
              · exact queue_settled _
      · exact declined_settled _

theorem deleteEmail_settled : (deleteEmail site row job).Settled site row := by
  unfold deleteEmail
  rcases providerMutationSupport row with code | _ | _ | _
  · exact declined_settled _
  · exact .inr rfl
  · exact queue_settled _
  · exact queue_settled _

theorem act_settled : (act site row job action).Settled site row := by
  cases action with
  | read | unread | star => exact mutateMessageState_settled _ _
  | move folderId => exact moveEmail_settled folderId
  | delete => exact deleteEmail_settled

/-- A handler that writes has found the row, and the row is one that the caller may touch. -/
theorem handle_wrote (h : (handle kept access action id job site).wrote = some row) :
    loadMutableEmail kept site id = some row ∧ access row = true := by
  unfold handle at h
  split at h
  · cases h
  · rename_i found hload
    split at h
    · rename_i haccess
      have hact : (act site found job action).Settled site found := act_settled
      have hrow : found = row := by
        rcases hact with hnone | hsome
        · rw [hnone.1] at h
          cases h
        · exact Option.some.inj (hsome.symm.trans h)
      exact ⟨hrow ▸ hload, hrow ▸ haccess⟩
    · cases h

theorem of_loadMutableEmail (h : loadMutableEmail kept site id = some row) :
    row ∈ site.store.emails ∧ row.id = id ∧ kept row = true := by
  have hfound := List.find?_some h
  rw [Bool.and_eq_true, decide_eq_true_eq] at hfound
  exact ⟨List.mem_of_find?_eq_some h, hfound.1, hfound.2⟩

/-- A handler that does not write leaves its database as it was. -/
theorem handle_unchanged (h : (handle kept access action id job site).wrote = none) :
    (handle kept access action id job site).site = site := by
  unfold handle at h ⊢
  split
  · rfl
  · rename_i found hload
    rw [hload] at h
    simp only at h
    split
    · rename_i haccess
      rw [if_pos haccess] at h
      have hact : (act site found job action).Settled site found := act_settled
      rcases hact with hnone | hsome
      · exact hnone.2
      · rw [hsome] at h
        cases h
    · rfl

/-! ### The jobs that a handler queues -/

/-- The request that `planMutation` is asked about, with the folder the move names. -/
def Action.request (site : Site) (row : EmailRow) : Action → Request
  | .read => .state .isRead (some 1)
  | .unread => .state .isRead (some 0)
  | .star isStarred => .state .isStarred (isStarred.map Bool.toNat)
  | .move folderId => .move do
    let accountId ← row.accountId
    let provider ← (providerMutationSupport row).toOption
    resolveMoveTarget site.folders accountId provider.name (← folderId)
  | .delete => .delete

theorem accountId_of_support {provider : Provider} (h : providerMutationSupport row = .ok provider)
    (hext : provider ≠ .native) : ∃ accountId, row.accountId = some accountId ∧ accountId ≠ [] := by
  unfold providerMutationSupport at h
  simp only at h
  split at h
  · cases h
    exact absurd rfl hext
  · split at h
    · cases h
    · rename_i htruthy
      rcases haccount : row.accountId with _ | accountId
      · simp [haccount, truthy] at htruthy
      · exact ⟨accountId, rfl, by simpa [haccount, truthy] using htruthy⟩

theorem mutateMessageState_queues (column : FlagColumn) (explicitDesired : Option ℕ) (intent : Intent) :
    (mutateMessageState site row job column explicitDesired).reply = .queued job intent ↔
      planMutation row (.state column explicitDesired) = some intent := by
  unfold mutateMessageState planMutation
  rcases providerMutationSupport row with code | _ | _ | _
  all_goals simp [declined, updateNativeState, queueExternalMutation]

theorem deleteEmail_queues (intent : Intent) :
    (deleteEmail site row job).reply = .queued job intent ↔ planMutation row .delete = some intent := by
  unfold deleteEmail planMutation
  rcases providerMutationSupport row with code | _ | _ | _
  all_goals simp [declined, queueExternalMutation]

theorem moveEmail_queues (folderId : Option ℤ) (intent : Intent) :
    (moveEmail site row job folderId).reply = .queued job intent ↔
      planMutation row (Action.request site row (.move folderId)) = some intent := by
  have hext {provider : Provider} (hs : providerMutationSupport row = .ok provider) (hne : provider ≠ .native) :
      (moveEmail site row job folderId).reply = .queued job intent ↔
        planMutation row (Action.request site row (.move folderId)) = some intent := by
    obtain ⟨accountId, haccount, hblank⟩ := accountId_of_support hs hne
    cases provider with
    | native => exact absurd rfl hne
    | imap | graph =>
      rcases folderId with _ | folderId
      · simp only [moveEmail, planMutation, Action.request, hs, haccount]
        split <;> simp [declined]
      · simp only [moveEmail, planMutation, Action.request, hs, haccount, Except.toOption, Option.bind_eq_bind,
          Option.bind_some]
        split
        · simp [declined]
        · by_cases hbad : folderId ≤ 0 ∨ maxSafeInteger < folderId
          · have hbad' : folderId ≤ 0 ∨ maxSafeInteger < folderId ∨ accountId = [] := by tauto
            rw [if_pos hbad', resolveMoveTarget, if_pos hbad]
            simp [declined]
          · rw [if_neg (by tauto)]
            rcases resolveMoveTarget site.folders accountId _ folderId with _ | target
            · simp [declined]
            · simp only
              split
              · simp [declined]
              · split <;> simp [declined, queueExternalMutation]
  rcases hs : providerMutationSupport row with code | _ | _ | _
  · simp [moveEmail, planMutation, hs, declined]
  · simp [moveEmail, planMutation, hs, declined]
  · exact hext hs (by decide)
  · exact hext hs (by decide)

/-- A job is queued exactly for the intent that the row and the request decide. -/
theorem act_queues (intent : Intent) :
    (act site row job action).reply = .queued job intent ↔
      planMutation row (action.request site row) = some intent := by
  cases action with
  | read | unread | star => exact mutateMessageState_queues _ _ intent
  | move folderId => exact moveEmail_queues folderId intent
  | delete => exact deleteEmail_queues intent

end OneMail.Mutation
