import OneMail.Move.Attempts

/-! What the attempts of a move job guarantee.

    The server is as the job found it until the first MOVE that takes effect, and as that MOVE left it from then
    on: the source has no row under the UID any more, so no later attempt issues a MOVE. -/

namespace OneMail.Move
open Fallible Transition

variable {py : Platform} {account : Account} {job : Job} {replies : Replies} {server : Server} {source : Source}
  {e : Raised} {n : ℕ}

/-! ### What an attempt does -/

@[simp] theorem command_ok {α : Type} {fails : Option ProviderError} {answer a : α} :
    command fails answer = .ok a ↔ fails = none ∧ answer = a := by
  cases fails <;> simp [command]

@[simp] theorem command_error {α : Type} {fails : Option ProviderError} {answer : α} :
    command fails answer = .error e ↔ ∃ p, fails = some p ∧ e = .provider p := by
  cases fails <;> simp [command, eq_comm]

/-- The checks of an attempt that do not depend on what fails. -/
structure Ready (py : Platform) (account : Account) (job : Job) (server : Server) (source : Source) : Prop where
  imap : ¬ (py.lower job.provider = "pop3" ∨ account.protocol = "pop3")
  identity : imapIdentity py job = .ok (source.folder, source.uidvalidity, source.uid)
  target : source.target = text py job.targetFolder
  target_ne : source.target ≠ ""
  header : text py job.messageIdHeader ≠ ""
  move : server.hasCapability "MOVE" = true
  uidplus : server.hasCapability "UIDPLUS" = true

theorem prepare_ready (h : prepare py account job replies server = .ok source) : Ready py account job server source := by
  simp only [prepare, requireImapCapability, bind_ok, throwIf_ok, command_ok, Prod.exists] at h
  obtain ⟨-, himap, folder, uidvalidity, uid, hidentity, -, -, -, htarget, -, hheader, -, ⟨_, ⟨-, rfl⟩, hmove⟩, -,
    ⟨_, ⟨-, rfl⟩, huidplus⟩, heq⟩ := h
  cases heq
  exact ⟨himap, hidentity, rfl, htarget, hheader, by simpa using hmove, by simpa using huidplus⟩

theorem Ready.unique {server' : Server} {source' : Source} (h : Ready py account job server source)
    (h' : Ready py account job server' source') : source = source' := by
  have hidentity := h.identity.symm.trans h'.identity
  simp only [Except.ok.injEq, Prod.mk.injEq] at hidentity
  obtain ⟨hfolder, huidvalidity, huid⟩ := hidentity
  have htarget : source.target = source'.target := h.target.trans h'.target.symm
  cases source
  cases source'
  simp_all

theorem matches_ok {target : String} {select search : Option ProviderError} {v : ℤ} {found : List ℤ}
    (h : imapTargetMessageMatches py job target select search server = .ok (v, found)) :
    v = (server.folders target).uidvalidity ∧
      found = (server.folders target).searchMessageId (text py job.messageIdHeader) := by
  simp only [imapTargetMessageMatches, bind_ok, throwIf_ok, command_ok] at h
  obtain ⟨-, -, _, ⟨-, rfl⟩, -, -, _, ⟨-, rfl⟩, -, -, heq⟩ := h
  cases heq
  exact ⟨rfl, rfl⟩

theorem recover_ok {target : String} {v uid : ℤ}
    (h : imapRecoverMovedMessage py job target replies server = .ok (v, uid)) :
    v = (server.folders target).uidvalidity ∧
      (server.folders target).searchMessageId (text py job.messageIdHeader) = [uid] := by
  simp only [imapRecoverMovedMessage, bind_ok, Prod.exists] at h
  obtain ⟨v', found, hmatches, h⟩ := h
  obtain ⟨rfl, rfl⟩ := matches_ok hmatches
  split at h
  · rename_i hfound
    cases h
    exact ⟨rfl, hfound⟩
  · cases h

/-- The message is at the source. -/
structure Present (server : Server) (source : Source) (r : Row) : Prop where
  uidvalidity : (server.folders source.folder).uidvalidity = source.uidvalidity
  row : (server.folders source.folder).row source.uid = some r

theorem locate_present (h : locate py job source n replies server = .ok .present) : ∃ r, Present server source r := by
  simp only [locate, bind_ok, throwIf_ok, command_ok, not_not] at h
  obtain ⟨-, -, _, ⟨-, rfl⟩, -, huidvalidity, _, ⟨-, rfl⟩, h⟩ := h
  split at h
  · rename_i hmem
    obtain ⟨r, hr⟩ := mem_searchUid.mp hmem
    exact ⟨r, huidvalidity, hr⟩
  · unfold recover at h
    split at h
    · split at h <;> cases h
    · cases h

theorem locate_recovered {v uid : ℤ} (h : locate py job source n replies server = .ok (.recovered v uid)) :
    (server.folders source.folder).uidvalidity = source.uidvalidity ∧
      (server.folders source.folder).row source.uid = none ∧ v = (server.folders source.target).uidvalidity ∧
      (server.folders source.target).searchMessageId (text py job.messageIdHeader) = [uid] := by
  simp only [locate, bind_ok, throwIf_ok, command_ok, not_not] at h
  obtain ⟨-, -, _, ⟨-, rfl⟩, -, huidvalidity, _, ⟨-, rfl⟩, h⟩ := h
  split at h
  · cases h
  · rename_i hmem
    have hnone : (server.folders source.folder).row source.uid = none := by
      rw [Option.eq_none_iff_forall_ne_some]
      exact fun r hr => hmem (mem_searchUid.mpr ⟨r, hr⟩)
    unfold recover at h
    split at h
    · split at h
      · cases h
      · rename_i hrecover
        cases h
        exact ⟨huidvalidity, hnone, recover_ok hrecover⟩
    · cases h

theorem parseCopyuid_truthful {copyuid : CopyUid} {uid v destination : ℤ} (hv : copyuid.uidvalidity = v)
    (hsources : expandUidSet copyuid.sources = .ok [uid])
    (hdestinations : expandUidSet copyuid.destinations = .ok [destination]) {mapped : Option (ℤ × ℤ)}
    (h : parseCopyuid (some copyuid) uid = .ok mapped) : mapped = some (v, destination) := by
  simp only [parseCopyuid, hsources, hdestinations, bind_ok, Except.ok.injEq, throwIf_ok] at h
  obtain ⟨_, rfl, _, rfl, -, -, -, -, h⟩ := h
  cases h
  simp [hv]

/-- What a MOVE that is acknowledged is confirmed to have done. -/
theorem confirm_ok {copyuid : Option CopyUid} {after : Server} {v uid : ℤ}
    (hcopyuid : (MoveReply.answers copyuid).Truthful source server)
    (hafter : (after.folders source.target).uidvalidity = (server.folders source.target).uidvalidity)
    (h : confirm py job source.uid source.target copyuid replies after = .ok (v, uid)) :
    v = (after.folders source.target).uidvalidity ∧ (uid = (server.folders source.target).uidnext ∨
      (after.folders source.target).searchMessageId (text py job.messageIdHeader) = [uid]) := by
  obtain ⟨mapped, hparse, h⟩ := bind_ok.mp h
  cases copyuid with
  | none =>
    cases hparse
    obtain ⟨hv, hfound⟩ := recover_ok h
    exact ⟨hv, .inr hfound⟩
  | some copyuid =>
    obtain ⟨hv, hsources, hdestinations⟩ := hcopyuid copyuid rfl
    obtain rfl := parseCopyuid_truthful hv hsources hdestinations hparse
    simp only [bind_ok, throwIf_ok, command_ok, not_not] at h
    obtain ⟨-, -, -, -, -, -, -, -, heq⟩ := h
    cases heq
    exact ⟨hafter.symm, .inl rfl⟩

/-! ### What an attempt raises -/

theorem outcomeUnknown_retryable (h : (∃ text, e = .identity text) ∨ ∃ p, e = .provider p ∧ p.kind ≠ .other) :
    (outcomeUnknown e).retryable = true := by
  rcases h with ⟨text, rfl⟩ | ⟨p, rfl, hkind⟩
  · rfl
  · rw [outcomeUnknown, if_neg hkind]
    rfl

theorem matches_error {target : String} {select search : Option ProviderError}
    (h : imapTargetMessageMatches py job target select search server = .error e) :
    (∃ text, e = .identity text) ∨ ∃ p, (select = some p ∨ search = some p) ∧ e = .provider p := by
  simp only [imapTargetMessageMatches, bind_error, throwIf_error, command_error] at h
  rcases h with ⟨-, rfl⟩ | ⟨-, -, ⟨p, hp, rfl⟩ | ⟨_, -, ⟨-, rfl⟩ | ⟨-, -, ⟨p, hp, rfl⟩ | ⟨_, -, ⟨-, rfl⟩ | ⟨-, -, h⟩⟩⟩⟩⟩
  · exact .inl ⟨_, rfl⟩
  · exact .inr ⟨p, .inl hp, rfl⟩
  · exact .inl ⟨_, rfl⟩
  · exact .inr ⟨p, .inr hp, rfl⟩
  · exact .inl ⟨_, rfl⟩
  · cases h

theorem recover_error (hexpected : replies.Expected) {target : String}
    (h : imapRecoverMovedMessage py job target replies server = .error e) :
    (∃ text, e = .identity text) ∨ ∃ p, e = .provider p ∧ p.kind ≠ .other := by
  rcases bind_error.mp h with h | ⟨⟨v, found⟩, -, h⟩
  · rcases matches_error h with h | ⟨p, hp | hp, rfl⟩
    · exact .inl h
    · exact .inr ⟨p, rfl, hexpected.2 .selectRecover (by simp) p hp⟩
    · exact .inr ⟨p, rfl, hexpected.2 .searchRecover (by simp) p hp⟩
  · dsimp only at h
    split at h
    · cases h
    · cases h
      exact .inl ⟨_, rfl⟩

theorem expandPart_error {out : List ℤ} {part : UidRange} (h : expandPart out part = .error e) :
    ∃ text, e = .identity text := by
  simp only [expandPart, bind_error, throwIf_error] at h
  rcases h with ⟨-, rfl⟩ | ⟨-, -, h⟩
  · exact ⟨_, rfl⟩
  · cases h

theorem foldlM_expandPart_error : ∀ {parts : List UidRange} {out : List ℤ}, parts.foldlM expandPart out = .error e →
    ∃ text, e = .identity text
  | [], _, h => by cases h
  | part :: parts, out, h => by
    rw [List.foldlM_cons] at h
    rcases bind_error.mp h with h | ⟨out', -, h⟩
    · exact expandPart_error h
    · exact foldlM_expandPart_error h

theorem expandUidSet_error {parts : List UidRange} (h : expandUidSet parts = .error e) : ∃ text, e = .identity text := by
  simp only [expandUidSet, bind_error, throwIf_error] at h
  rcases h with h | ⟨_, -, ⟨-, rfl⟩ | ⟨-, -, h⟩⟩
  · exact foldlM_expandPart_error h
  · exact ⟨_, rfl⟩
  · cases h

theorem parseCopyuid_error {copyuid : Option CopyUid} {uid : ℤ} (h : parseCopyuid copyuid uid = .error e) :
    ∃ text, e = .identity text := by
  cases copyuid with
  | none => cases h
  | some copyuid =>
    simp only [parseCopyuid, bind_error, throwIf_error] at h
    rcases h with h | ⟨_, -, h | ⟨_, -, ⟨-, rfl⟩ | ⟨-, -, ⟨-, rfl⟩ | ⟨-, -, h⟩⟩⟩⟩
    · exact expandUidSet_error h
    · exact expandUidSet_error h
    · exact ⟨_, rfl⟩
    · exact ⟨_, rfl⟩
    · cases h

theorem confirm_error (hexpected : replies.Expected) {copyuid : Option CopyUid} {uid : ℤ} {target : String}
    (h : confirm py job uid target copyuid replies server = .error e) :
    (∃ text, e = .identity text) ∨ ∃ p, e = .provider p ∧ p.kind ≠ .other := by
  rcases bind_error.mp h with h | ⟨mapped, -, h⟩
  · exact .inl (parseCopyuid_error h)
  cases mapped with
  | none => exact recover_error hexpected h
  | some mapped =>
    simp only [bind_error, throwIf_error, command_error] at h
    rcases h with ⟨p, hp, rfl⟩ | ⟨_, -, ⟨-, rfl⟩ | ⟨-, -, ⟨p, hp, rfl⟩ | ⟨_, -, ⟨-, rfl⟩ | ⟨-, -, h⟩⟩⟩⟩
    · exact .inr ⟨p, rfl, hexpected.2 .selectTarget (by simp) p hp⟩
    · exact .inl ⟨_, rfl⟩
    · exact .inr ⟨p, rfl, hexpected.2 .searchTarget (by simp) p hp⟩
    · exact .inl ⟨_, rfl⟩
    · cases h

theorem requireImapCapability_error {capability : String} (hhas : server.hasCapability capability = true)
    (h : requireImapCapability replies server capability = .error e) :
    ∃ p, replies.fails (.capability capability) = some p ∧ e = .provider p := by
  simp only [requireImapCapability, bind_error, throwIf_error, command_error, command_ok] at h
  rcases h with h | ⟨_, ⟨-, rfl⟩, hfalse, -⟩
  · exact h
  · rw [hhas] at hfalse
    cases hfalse

/-- An attempt that gets past the checks of an earlier one fails with errors that are tried again. -/
theorem prepare_error (hready : Ready py account job server source) (hretried : replies.Retried account)
    (h : prepare py account job replies server = .error e) : e.retryable = true := by
  have hcommand : ∀ c ∈ [Command.connect, .capability "MOVE", .capability "UIDPLUS", .selectSource, .searchSource],
      (∃ p, replies.fails c = some p ∧ e = .provider p) → e.retryable = true := by
    rintro c hc ⟨p, hp, rfl⟩
    exact hretried.2.2 c hc p hp
  rcases bind_error.mp h with h | ⟨-, -, h⟩
  · exact absurd (throwIf_error.mp h).1 hready.imap
  rw [hready.identity] at h
  rcases bind_error.mp h with h | ⟨⟨folder, uidvalidity, uid⟩, -, h⟩
  · cases h
  rcases bind_error.mp h with h | ⟨-, -, h⟩
  · exact hcommand .connect (by simp) (command_error.mp h)
  rcases bind_error.mp h with h | ⟨-, -, h⟩
  · exact absurd (throwIf_error.mp h).1 (hready.target ▸ hready.target_ne)
  rcases bind_error.mp h with h | ⟨-, -, h⟩
  · exact absurd (throwIf_error.mp h).1 hready.header
  rcases bind_error.mp h with h | ⟨-, -, h⟩
  · exact hcommand (.capability "MOVE") (by simp) (requireImapCapability_error hready.move h)
  rcases bind_error.mp h with h | ⟨-, -, h⟩
  · exact hcommand (.capability "UIDPLUS") (by simp) (requireImapCapability_error hready.uidplus h)
  · cases h

theorem locate_error (hn : 1 < n) (hexpected : replies.Expected) (hretried : replies.Retried account)
    (h : locate py job source n replies server = .error e) : e.retryable = true := by
  rw [locate, if_neg (by omega : ¬ n = 1)] at h
  rcases bind_error.mp h with h | ⟨-, -, h⟩
  · cases h
  rcases bind_error.mp h with h | ⟨current, -, h⟩
  · obtain ⟨p, hp, rfl⟩ := command_error.mp h
    exact hretried.2.2 .selectSource (by simp) p hp
  rcases bind_error.mp h with h | ⟨-, -, h⟩
  · obtain ⟨-, rfl⟩ := throwIf_error.mp h
    rw [if_pos hn]
    rfl
  rcases bind_error.mp h with h | ⟨found, -, h⟩
  · obtain ⟨p, hp, rfl⟩ := command_error.mp h
    exact hretried.2.2 .searchSource (by simp) p hp
  split at h
  · cases h
  · rw [recover, if_pos hn] at h
    split at h
    · rename_i hrecover
      cases h
      exact outcomeUnknown_retryable (recover_error hexpected hrecover)
    · cases h

/-! ### What a turn of the job loop comes to -/

theorem failureReport_status (n : ℕ) (e : Raised) : (failureReport n e).status ≠ .succeeded := by
  unfold failureReport
  split
  · exact nofun
  · exact nofun
  · exact nofun
  · split <;> exact nofun

theorem failureReport_retry (h : e.retryable = true) : (failureReport n e).status.terminal = false := by
  cases e <;> simp_all [failureReport, Raised.retryable, Status.terminal]

/-- An attempt after one that issued a MOVE, and nothing fails for good before it comes to that point. -/
structure Later (py : Platform) (account : Account) (job : Job) (n : ℕ) (replies : Replies) (server : Server) : Prop where
  attempt : 1 < n
  provider : py.lower job.provider = "imap"
  ready : ∃ source, Ready py account job server source
  retried : replies.Retried account

inductive Outcome (py : Platform) (account : Account) (job : Job) (n : ℕ) (replies : Replies) (server : Server) :
    Processed → Prop
  | quiet (r : Report) (hr : r.status ≠ .succeeded)
      (hlater : replies.Expected → Later py account job n replies server → r.status.terminal = false) :
      Outcome py account job n replies server ⟨server, false, r⟩
  | recovered (source : Source) (v uid : ℤ) (hready : Ready py account job server source)
      (hlocate : locate py job source n replies server = .ok (.recovered v uid)) :
      Outcome py account job n replies server
        ⟨server, false, .succeeded, none, none, some (imapMoveProjection account source.target v uid)⟩
  | unknown (source : Source) (row : Row) (applied : Bool) (r : Report) (hr : r.status ≠ .succeeded)
      (hexpected : replies.Expected → r.status.terminal = false) (himap : py.lower job.provider = "imap")
      (hready : Ready py account job server source) (hpresent : Present server source row) :
      Outcome py account job n replies server
        ⟨if applied then server.move source.folder source.uid source.target else server, true, r⟩
  | moved (source : Source) (row : Row) (copyuid : Option CopyUid) (v uid : ℤ) (himap : py.lower job.provider = "imap")
      (hprepare : prepare py account job replies server = .ok source) (hmove : replies.move = .answers copyuid)
      (hpresent : Present server source row)
      (hconfirm : confirm py job source.uid source.target copyuid replies
        (server.move source.folder source.uid source.target) = .ok (v, uid)) :
      Outcome py account job n replies server
        ⟨server.move source.folder source.uid source.target, true, .succeeded, none, none,
          some (imapMoveProjection account source.target v uid)⟩

/-- A report of an error that later attempts do not end with. -/
theorem quiet_outcome (h : replies.Expected → Later py account job n replies server → e.retryable = true) :
    Outcome py account job n replies server ⟨server, false, failureReport n e⟩ :=
  .quiet _ (failureReport_status _ _) fun hexpected hlater => failureReport_retry (h hexpected hlater)

theorem processJob_outcome : Outcome py account job n replies server (processJob py account job n replies server) := by
  unfold processJob
  split
  · rename_i haccount
    refine .quiet _ ?_ fun _ hlater => ?_
    · cases replies.accountFetchFailed <;> exact nofun
    · rw [hlater.retried.1 haccount]
      rfl
  split
  · rename_i e he
    refine quiet_outcome fun _ hlater => ?_
    have hmanaged : account.userManaged = true := by
      by_contra hnot
      rw [if_neg hnot] at he
      cases he
    rw [if_pos hmanaged] at he
    exact hlater.retried.2.1 hmanaged e he
  split
  · rename_i himap
    exact quiet_outcome fun _ hlater => absurd hlater.provider himap
  rename_i himap
  rw [not_not] at himap
  unfold applyImapMutation
  cases hprepare : prepare py account job replies server with
  | error e =>
    refine quiet_outcome fun _ hlater => ?_
    obtain ⟨source, hready⟩ := hlater.ready
    exact prepare_error hready hlater.retried hprepare
  | ok source =>
    have hready := prepare_ready hprepare
    cases hlocate : locate py job source n replies server with
    | error e =>
      simp only [hlocate]
      exact quiet_outcome fun hexpected hlater => locate_error hlater.attempt hexpected hlater.retried hlocate
    | ok located =>
      cases located with
      | recovered v uid =>
        simp only [hlocate]
        exact .recovered source v uid hready hlocate
      | present =>
        obtain ⟨row, hpresent⟩ := locate_present hlocate
        cases hmove : replies.move with
        | fails e applied =>
          simp only [hlocate]
          refine .unknown source row applied _ (failureReport_status _ _) (fun hexpected => ?_) himap hready hpresent
          exact failureReport_retry (outcomeUnknown_retryable (.inr ⟨e, rfl, hexpected.1 e applied hmove⟩))
        | answers copyuid =>
          cases hconfirm : confirm py job source.uid source.target copyuid replies
            (server.move source.folder source.uid source.target) with
          | error e =>
            simp only [hlocate, hconfirm]
            refine .unknown source row true _ (failureReport_status _ _) (fun hexpected => ?_) himap hready hpresent
            exact failureReport_retry (outcomeUnknown_retryable (confirm_error hexpected hconfirm))
          | ok mapped =>
            simp only [hlocate, hconfirm]
            exact .moved source row copyuid mapped.1 mapped.2 himap hprepare hmove hpresent hconfirm

/-! ### Where the message is -/

variable {w : World} {label : Label} {row : Row}

/-- The message of the job was at the source when the job began, and a MOVE has taken effect. -/
structure Moved (py : Platform) (account : Account) (job : Job) (start server : Server) (source : Source) (row : Row) :
    Prop where
  ready : Ready py account job start source
  present : Present start source row
  server : server = start.move source.folder source.uid source.target

theorem Ready.start {start : Server} (h : Ready py account job server source)
    (hcapability : server.hasCapability = start.hasCapability) : Ready py account job start source :=
  ⟨h.imap, h.identity, h.target, h.target_ne, h.header, hcapability ▸ h.move, hcapability ▸ h.uidplus⟩

theorem Ready.origin (h : Ready py account job server source) (hpresent : Present server source row) :
    origin py job server = some row := by
  simp only [Move.origin, h.identity, hpresent.uidvalidity, if_true, hpresent.row]

/-- After the MOVE the message is not at the source any more. -/
theorem Moved.absent {start : Server} (h : Moved py account job start server source row) {source' : Source} {row' : Row}
    (hready : Ready py account job server source') : ¬ Present server source' row' := by
  intro hpresent
  obtain rfl := hready.unique h.ready
  have hrow := hpresent.row
  rw [h.server, move_row] at hrow
  cases hrow

/-- A search in the target of a Message-ID that the moved message carries finds it. -/
theorem Moved.found {start : Server} (h : Moved py account job start server source row) {messageId : String}
    (hid : row.messageId = messageId) :
    (start.moved row source.target).uid ∈ (server.folders source.target).searchMessageId messageId := by
  rw [h.server]
  exact List.mem_map_of_mem (List.mem_filter.mpr ⟨moved_mem h.present.row, decide_eq_true hid⟩)

/-- A search of another Message-ID finds what it found before the MOVE. -/
theorem Moved.not_found {start : Server} (h : Moved py account job start server source row) {messageId : String}
    (hid : row.messageId ≠ messageId) : (server.folders source.target).searchMessageId messageId =
      (start.folders source.target).searchMessageId messageId := by
  have hmoved : ¬ (start.moved row source.target).messageId = messageId := hid
  rw [h.server, Folder.searchMessageId, move_target h.present.row, List.filter_append, List.filter_singleton]
  simp only [hmoved, decide_false, cond_false, List.append_nil]
  by_cases hsame : source.target = source.folder
  · rw [hsame, taken_source]
    exact searchMessageId_expunge h.present.row hid
  · rw [taken_other hsame]
    rfl

/-- What the recovery finds after the MOVE is the message that was moved. -/
theorem Moved.recovered {start : Server} (h : Moved py account job start server source row)
    (hsourced : Sourced py job start) {uid : ℤ}
    (hfound : (server.folders source.target).searchMessageId (text py job.messageIdHeader) = [uid]) :
    uid = (start.moved row source.target).uid := by
  by_cases hid : row.messageId = text py job.messageIdHeader
  · have hmem := h.found hid
    rw [hfound] at hmem
    exact (List.mem_singleton.mp hmem).symm
  · rcases hsourced _ _ _ h.ready.identity h.present.uidvalidity with ⟨row', hrow', hid'⟩ | hlength
    · rw [h.present.row] at hrow'
      cases hrow'
      exact absurd hid' hid
    · rw [← h.ready.target, ← h.not_found hid, hfound] at hlength
      exact absurd rfl hlength

/-- A server as the job found it, or as the one MOVE left it; and the successes reported so far. -/
structure Inv (py : Platform) (account : Account) (job : Job) (w : World) : Prop where
  moves : w.start.moves = []
  placed : w.server = w.start ∨ ∃ source row, Moved py account job w.start w.server source row
  told : Sourced py job w.start → ∀ r, .reported r ∈ w.events → r.status = .succeeded →
    ∃ source row, Moved py account job w.start w.server source row ∧
      r.projection = some (imapMoveProjection account source.target (w.server.folders source.target).uidvalidity
        (w.start.moved row source.target).uid)

theorem Inv.hasCapability (h : Inv py account job w) : w.server.hasCapability = w.start.hasCapability := by
  rcases h.placed with heq | ⟨source, row, hmoved⟩
  · rw [heq]
  · rw [hmoved.server, move_hasCapability]

/-- A message that is at the source has not been moved. -/
theorem Inv.unmoved (h : Inv py account job w) (hready : Ready py account job w.server source)
    (hpresent : Present w.server source row) : w.server = w.start := by
  rcases h.placed with heq | ⟨source', row', hmoved⟩
  · exact heq
  · exact absurd hpresent (hmoved.absent hready)

theorem mem_after {p : Processed} {delivered : Bool} {r : Report} (h : .reported r ∈ (w.after p delivered).events) :
    .reported r ∈ w.events ∨ r = p.report := by
  simp only [World.after, List.mem_append, List.mem_singleton] at h
  rcases h with (h | h) | h
  · exact .inl h
  · split at h <;> simp at h
  · exact .inr (Event.reported.inj h)

theorem Inv.after (h : Inv py account job w) (hcopyuid : ∀ source, prepare py account job replies w.server = .ok source →
      replies.move.Truthful source w.server) {p : Processed} (hp : Outcome py account job n replies w.server p)
    (delivered : Bool) : Inv py account job (w.after p delivered) := by
  cases hp with
  | quiet r hr _ =>
    refine ⟨h.moves, h.placed, fun hsourced r' hmem hr' => ?_⟩
    rcases mem_after hmem with hmem | rfl
    · exact h.told hsourced r' hmem hr'
    · exact absurd hr' hr
  | recovered source v uid hready hlocate =>
    obtain ⟨huidvalidity, hnone, rfl, hfound⟩ := locate_recovered hlocate
    refine ⟨h.moves, h.placed, fun hsourced r' hmem hr' => ?_⟩
    rcases mem_after hmem with hmem | rfl
    · exact h.told hsourced r' hmem hr'
    · rcases h.placed with heq | ⟨source', row, hmoved⟩
      · -- nothing was moved, so the target holds another message
        rw [heq] at huidvalidity hnone hfound
        have hstart : Sourced py job w.start := hsourced
        rcases hstart _ _ _ hready.identity huidvalidity with ⟨row, hrow, -⟩ | hlength
        · rw [hnone] at hrow
          cases hrow
        · rw [← hready.target, hfound] at hlength
          exact absurd rfl hlength
      · obtain rfl := (hready.start h.hasCapability).unique hmoved.ready
        exact ⟨source, row, hmoved, by rw [hmoved.recovered hsourced hfound]; rfl⟩
  | unknown source row applied r hr _ _ hready hpresent =>
    have heq := h.unmoved hready hpresent
    refine ⟨h.moves, ?_, fun hsourced r' hmem hr' => ?_⟩
    · have hserver : w.server.move source.folder source.uid source.target =
          w.start.move source.folder source.uid source.target := by rw [heq]
      cases applied
      · exact h.placed
      · exact .inr ⟨source, row, hready.start h.hasCapability, heq ▸ hpresent, hserver⟩
    · rcases mem_after hmem with hmem | rfl
      · obtain ⟨source', row', hmoved, -⟩ := h.told hsourced r' hmem hr'
        exact absurd hpresent (hmoved.absent hready)
      · exact absurd hr' hr
  | moved source row copyuid v uid _ hprepare hmove hpresent hconfirm =>
    have hready := prepare_ready hprepare
    have heq := h.unmoved hready hpresent
    have hmoved : Moved py account job w.start (w.server.move source.folder source.uid source.target) source row :=
      ⟨hready.start h.hasCapability, heq ▸ hpresent, by rw [← heq]⟩
    refine ⟨h.moves, .inr ⟨source, row, hmoved⟩, fun hsourced r' hmem hr' => ?_⟩
    rcases mem_after hmem with hmem | rfl
    · obtain ⟨source', row', hmoved', -⟩ := h.told hsourced r' hmem hr'
      exact absurd hpresent (hmoved'.absent hready)
    · obtain ⟨rfl, huid⟩ := confirm_ok (hmove ▸ hcopyuid source hprepare) (move_uidvalidity _) hconfirm
      have htold : uid = (w.start.moved row source.target).uid := by
        rcases huid with rfl | hfound
        · rw [← heq]
          rfl
        · exact hmoved.recovered hsourced hfound
      exact ⟨source, row, hmoved, by rw [htold]; rfl⟩

theorem reachable_inv (h : Reachable (attempts py account job) w) : Inv py account job w := by
  refine Run.invariant (fun w hinit => ?_) (fun w label w' _ hinv _ hstep => ?_) h
  · obtain ⟨hserver, hmoves, -, -, hevents⟩ := hinit
    exact ⟨hmoves, .inl hserver, fun _ r hmem => by rw [hevents] at hmem; cases hmem⟩
  · cases hstep with
    | lost => exact ⟨hinv.moves, hinv.placed, hinv.told⟩
    | attempt replies delivered _ hcopyuid => exact hinv.after hcopyuid processJob_outcome delivered

/-! ### After a MOVE was issued -/

/-- What an attempt that issued a MOVE has shown for all attempts to come. -/
structure Issued (py : Platform) (account : Account) (job : Job) (w : World) : Prop where
  claimed : 1 ≤ w.claims
  provider : py.lower job.provider = "imap"
  ready : ∃ source, Ready py account job w.server source

/-- Failures that come after a MOVE are tried again. -/
structure Tried (py : Platform) (account : Account) (job : Job) (w : World) : Prop where
  inv : Inv py account job w
  issued : .issued ∈ w.events → Issued py account job w
  none_failed : NoneFailed w.events

theorem Ready.same {server' : Server} (h : Ready py account job server source)
    (hcapability : server'.hasCapability = server.hasCapability) : Ready py account job server' source :=
  h.start hcapability.symm

theorem noneFailed_after (h : NoneFailed w.events) {p : Processed} {delivered : Bool}
    (hp : .issued ∈ w.events ∨ p.issued = true → p.report.status ≠ .failed ∧ p.report.status ≠ .unsupported) :
    NoneFailed (w.after p delivered).events := by
  refine List.pairwise_append.mpr ⟨List.pairwise_append.mpr ⟨h, ?_, ?_⟩, List.pairwise_singleton .., ?_⟩
  · split <;> simp
  · intro before _ event hevent _ r hr
    split at hevent
    · rw [List.mem_singleton.mp hevent] at hr
      cases hr
    · cases hevent
  · rintro before hbefore event hevent rfl r rfl
    obtain rfl := Event.reported.inj (List.mem_singleton.mp hevent)
    refine hp ?_
    rcases List.mem_append.mp hbefore with hbefore | hbefore
    · exact .inl hbefore
    · split at hbefore
      · exact .inr ‹_›
      · cases hbefore

theorem Tried.after (h : Tried py account job w) (hexpected : replies.Expected)
    (hretried : .issued ∈ w.events → replies.Retried account)
    (hcopyuid : ∀ source, prepare py account job replies w.server = .ok source → replies.move.Truthful source w.server)
    {p : Processed} (hp : Outcome py account job (w.claims + 1) replies w.server p) (delivered : Bool) :
    Tried py account job (w.after p delivered) := by
  have hinv := h.inv.after hcopyuid hp delivered
  have hcapability : p.server.hasCapability = w.server.hasCapability :=
    hinv.hasCapability.trans h.inv.hasCapability.symm
  have hissued : .issued ∈ (w.after p delivered).events → .issued ∈ w.events ∨ p.issued = true := by
    intro hmem
    simp only [World.after, List.mem_append, List.mem_singleton, reduceCtorEq, or_false] at hmem
    rcases hmem with hmem | hmem
    · exact .inl hmem
    · split at hmem
      · exact .inr ‹_›
      · cases hmem
  have hlater : .issued ∈ w.events → Later py account job (w.claims + 1) replies w.server := by
    intro hmem
    obtain ⟨hclaimed, hprovider, hready⟩ := h.issued hmem
    exact ⟨by omega, hprovider, hready, hretried hmem⟩
  have hterminal : ∀ {r : Report}, r.status.terminal = false → r.status ≠ .failed ∧ r.status ≠ .unsupported := by
    intro r hr
    constructor <;> intro heq <;> rw [heq] at hr <;> cases hr
  refine ⟨hinv, fun hmem => ?_, noneFailed_after h.none_failed ?_⟩
  · have hclaimed : 1 ≤ (w.after p delivered).claims := Nat.succ_pos _
    rcases hissued hmem with hmem | hp'
    · obtain ⟨-, hprovider, source, hready⟩ := h.issued hmem
      exact ⟨hclaimed, hprovider, source, hready.same hcapability⟩
    · cases hp with
      | quiet => cases hp'
      | recovered => cases hp'
      | unknown source row applied r _ _ himap hready => exact ⟨hclaimed, himap, source, hready.same hcapability⟩
      | moved source row copyuid v uid himap hprepare =>
        exact ⟨hclaimed, himap, source, (prepare_ready hprepare).same hcapability⟩
  · intro hmem
    cases hp with
    | quiet r _ hquiet =>
      rcases hmem with hmem | hp'
      · exact hterminal (hquiet hexpected (hlater hmem))
      · cases hp'
    | recovered => constructor <;> intro h <;> cases h
    | unknown source row applied r _ hunknown => exact hterminal (hunknown hexpected)
    | moved => constructor <;> intro h <;> cases h

theorem run_tried (h : Run (attempts py account job) (Harmless account) w) : Tried py account job w := by
  refine h.invariant (fun w hinit => ?_) fun w label w' hrun htried hharmless hstep => ?_
  · have hinv := reachable_inv (.start (S := attempts py account job) hinit)
    obtain ⟨-, -, -, -, hevents⟩ := hinit
    refine ⟨hinv, fun hmem => ?_, ?_⟩
    · rw [hevents] at hmem
      cases hmem
    · rw [hevents]
      exact .nil
  · cases hstep with
    | lost =>
      refine ⟨⟨htried.inv.moves, htried.inv.placed, htried.inv.told⟩, fun hmem => ?_, htried.none_failed⟩
      obtain ⟨hclaimed, hprovider, hready⟩ := htried.issued hmem
      exact ⟨Nat.le_succ_of_le hclaimed, hprovider, hready⟩
    | attempt replies delivered _ hcopyuid =>
      exact htried.after hharmless.1 hharmless.2 hcopyuid processJob_outcome delivered

/-- The message is moved at most once in any run; where the source identity holds the message when the job begins,
    or the target holds no single other one, successes are truthful; and in runs whose attempts are harmless, none
    that comes after a MOVE fails for good. -/
theorem move_recovery_sound (py : Platform) (account : Account) (job : Job) :
    (∀ w, Reachable (attempts py account job) w → w.server.moves.length ≤ 1) ∧
      (∀ w, Reachable (attempts py account job) w → Sourced py job w.start → Truthful py account job w) ∧
        ∀ w, Run (attempts py account job) (Harmless account) w → NoneFailed w.events := by
  refine ⟨fun w h => ?_, fun w h hsourced r hmem hr => ?_, fun w h => (run_tried h).none_failed⟩
  · have hinv := reachable_inv h
    rcases hinv.placed with heq | ⟨source, row, hmoved⟩
    · simp [heq, hinv.moves]
    · simp [hmoved.server, move_moves hmoved.present.row, hinv.moves]
  · obtain ⟨source, row, hmoved, hprojection⟩ := (reachable_inv h).told hsourced r hmem hr
    rw [hmoved.ready.target] at hprojection
    refine ⟨row, w.start.moved row source.target, hmoved.ready.origin hmoved.present, ?_, rfl, ?_⟩
    · rw [hmoved.server, ← hmoved.ready.target]
      exact moved_mem hmoved.present.row
    · rw [hprojection, hmoved.ready.target]

/-! ### Runs of one job -/

def demoPlatform : Platform := ⟨fun s => s, fun s => s, fun s => if s = "42" then some 42 else some 7⟩

def demoAccount : Account := ⟨"a", "h", "imap", false⟩

def demoJob : Job := ⟨"imap", some "INBOX", some "a:h:INBOX:7:42", some "Archive", some "<m@x>"⟩

def inbox : Folder := ⟨7, 43, [⟨42, "<m@x>", 1⟩], by decide, by decide, by decide, by decide⟩

def emptied : Folder := ⟨7, 43, [], by decide, by decide, by decide, by decide⟩

def archive : Folder := ⟨9, 5, [], by decide, by decide, by decide, by decide⟩

/-- Another message of the same Message-ID. -/
def filled : Folder := ⟨9, 5, [⟨4, "<m@x>", 2⟩], by decide, by decide, by decide, by decide⟩

def demoServer (source target : Folder) : Server := ⟨fun name => if name = "INBOX" then source else target, fun _ => true, []⟩

def demoStart (server : Server) : World := ⟨server, server, 0, false, []⟩

def answered : Replies := ⟨true, false, none, fun _ => none, .answers none⟩

theorem demoStart_run {C : World → Label → Prop} (server : Server) (h : server.moves = []) :
    Run (attempts demoPlatform demoAccount demoJob) C (demoStart server) := .start ⟨rfl, h, rfl, rfl, rfl⟩

theorem truthful_of_none (h : ∀ copyuid, replies.move ≠ .answers (some copyuid)) (source : Source) (server : Server) :
    replies.move.Truthful source server := fun copyuid heq => absurd heq (h copyuid)

def movedReport : Report := ⟨.succeeded, none, none, some (imapMoveProjection demoAccount "Archive" 9 5)⟩

theorem move_recovery_sound_demo : ∃ w, w.events = [.issued, .reported movedReport] ∧ w.server.moves.length ≤ 1 ∧
    Truthful demoPlatform demoAccount demoJob w ∧ NoneFailed w.events := by
  have h : Run (attempts demoPlatform demoAccount demoJob) (Harmless demoAccount) _ :=
    Run.next (a := Label.attempt answered true) (demoStart_run (demoServer inbox archive) rfl)
      ⟨⟨nofun, fun _ _ => nofun⟩, nofun⟩
      (Step.attempt answered true rfl fun _ _ => truthful_of_none (by rintro c ⟨⟩) _ _)
  obtain ⟨hmoves, htruthful, hnone⟩ := move_recovery_sound demoPlatform demoAccount demoJob
  refine ⟨_, rfl, hmoves _ h.reachable, htruthful _ h.reachable ?_, hnone _ h⟩
  intro folder uidvalidity uid hidentity _
  cases hidentity
  exact .inl ⟨⟨42, "<m@x>", 1⟩, rfl, rfl⟩

/-- The MOVE takes effect and its answer is lost. -/
def cutOff : Replies := { answered with move := .fails ⟨.os, "timed out"⟩ true }

/-- SELECT of the source is refused. -/
def refused : Replies :=
  { answered with fails := fun c => if c = .selectSource then some ⟨.client, "NO try later"⟩ else none }

/-- The server cannot be reached. -/
def unreachable : Replies :=
  { answered with fails := fun c => if c = .connect then some ⟨.os, "timed out"⟩ else none }

/-- The attempt after a MOVE fails for good on a SELECT that is refused, and an attempt whose predecessor did not
    reach the server takes another message for the moved one. -/
theorem recovery_by_number : (¬ ∀ w, Reachable (attempts demoPlatform demoAccount demoJob) w → NoneFailed w.events) ∧
    ¬ ∀ w, Reachable (attempts demoPlatform demoAccount demoJob) w → Truthful demoPlatform demoAccount demoJob w := by
  constructor
  · intro hall
    have h : Reachable (attempts demoPlatform demoAccount demoJob) _ := demoStart_run (demoServer inbox archive) rfl
    have h := h.step (Step.attempt cutOff true rfl fun _ _ => truthful_of_none (by rintro c ⟨⟩) _ _)
    have h := h.step (Step.attempt refused true rfl fun _ _ => truthful_of_none (by rintro c ⟨⟩) _ _)
    have hpair := (List.pairwise_append.mp (hall _ h)).2.2 .issued List.mem_cons_self _ List.mem_cons_self
    exact (hpair rfl _ rfl).1 rfl
  · intro hall
    have h : Reachable (attempts demoPlatform demoAccount demoJob) _ := demoStart_run (demoServer emptied filled) rfl
    have h := h.step (Step.attempt unreachable true rfl fun _ _ => truthful_of_none (by rintro c ⟨⟩) _ _)
    have h := h.step (Step.attempt answered true rfl fun _ _ => truthful_of_none (by rintro c ⟨⟩) _ _)
    obtain ⟨row, -, horigin, -⟩ := hall _ h _ (List.mem_cons_of_mem _ List.mem_cons_self) rfl
    cases horigin

end OneMail.Move
