import OneMail.Outbound.Jobs

/-! An outbound message is committed at most once.

    An error that is retried without being `OutboundOutcomeUnknown` comes from before the sending command
    (`sending_definite`). A search of the Sent folder that answers finds the message that was just
    committed if the filter takes it (`sentMatches_of_committed`). So an attempt after which the job is
    pending has committed nothing and, if its outcome was unknown, has been shown so
    (`pending_after`), provided its reconciliation was conclusive. -/

namespace OneMail.Outbound

variable {py : Python} {account : Account} {payload : Payload} {script : Script} {s : Sending} {folder : Folder}
  {e : Raised} {w : World} {a : Attempt} {row : JobRow}

theorem except_bind_ok {α β ε : Type} {x : Except ε α} {f : α → Except ε β} {b : β} (h : x.bind f = .ok b) :
    ∃ a, x = .ok a ∧ f a = .ok b := by
  cases x with
  | error _ => cases h
  | ok a => exact ⟨a, rfl, h⟩

/-! ### Errors of the senders -/

/-- An error that is retried and is not `OutboundOutcomeUnknown` comes from before the sending command. -/
def Sending.Definite (s : Sending) : Prop :=
  ∀ e, s.outcome = .error e → e.kind ≠ .outcomeUnknown → e.kind.retryable = true → s.issued = false

theorem definite_of_not_issued (h : s.issued = false) : s.Definite := fun _ _ _ _ => h

theorem definite_of_ok {id : Option String} (h : s.outcome = .ok id) : s.Definite := by
  intro e he
  rw [h] at he
  cases he

theorem definite_of_error (h : s.outcome = .error e) (hk : e.kind = .outcomeUnknown ∨ e.kind.retryable = false) :
    s.Definite := by
  intro e' he' hne hretry
  rw [h] at he'
  obtain rfl := Except.error.inj he'
  rcases hk with hk | hk
  · exact absurd hk hne
  · rw [hk] at hretry
    cases hretry

theorem smtp_raised_kind (e : SmtpError) :
    (e.raised account).kind = .outcomeUnknown ∨ (e.raised account).kind.retryable = false := by
  obtain ⟨kind, text⟩ := e
  cases kind <;> first | exact .inl rfl | exact .inr rfl

theorem smtp_raisedXoauth_kind (label : String) (e : SmtpError) :
    (e.raisedXoauth account label).kind = .outcomeUnknown ∨ (e.raisedXoauth account label).kind.retryable = false := by
  obtain ⟨kind, text⟩ := e
  cases kind <;> first | exact .inl rfl | exact .inr rfl

theorem http_raised_kind (forbidden : List ℕ) (f : ℕ → String) (t₁ t₂ t₃ t₄ : String) (e : HttpError) :
    (e.raised forbidden f t₁ t₂ t₃ t₄).kind = .outcomeUnknown ∨
      (e.raised forbidden f t₁ t₂ t₃ t₄).kind.retryable = false := by
  obtain ⟨kind, text⟩ := e
  cases kind with
  | status n =>
    rw [HttpError.raised]
    dsimp only
    split_ifs
    · exact .inr rfl
    · exact .inl rfl
    · exact .inr rfl
  | timeout | connection | request => exact .inl rfl
  | other => exact .inr rfl

theorem sendSmtpMessage_definite (calls : SmtpCalls) : (sendSmtpMessage account calls).Definite := by
  rw [sendSmtpMessage]
  split_ifs
  · exact definite_of_not_issued rfl
  · exact definite_of_not_issued rfl
  · split
    · exact definite_of_not_issued rfl
    · exact definite_of_not_issued rfl
    · exact definite_of_not_issued rfl
    · split
      · exact definite_of_error rfl (smtp_raised_kind _)
      · exact definite_of_ok rfl
      · exact definite_of_error rfl (.inr rfl)

theorem sendSmtpXoauthWith_definite (label : String) (calls : SmtpCalls) :
    (sendSmtpXoauthWith account label calls).Definite := by
  rw [sendSmtpXoauthWith]
  split
  · exact definite_of_not_issued rfl
  · exact definite_of_not_issued rfl
  · exact definite_of_not_issued rfl
  · split_ifs
    · exact definite_of_not_issued rfl
    · split
      · exact definite_of_error rfl (smtp_raisedXoauth_kind _ _)
      · exact definite_of_ok rfl
      · exact definite_of_error rfl (.inr rfl)

theorem sendSmtpXoauth_definite (label : String) (calls : OauthCalls) :
    (sendSmtpXoauth account label calls).Definite := by
  rw [sendSmtpXoauth]
  split
  · exact definite_of_not_issued rfl
  · exact definite_of_not_issued rfl
  · exact sendSmtpXoauthWith_definite label calls.smtp

theorem sendGmailApi_definite (calls : OauthCalls) : (sendGmailApi account calls).Definite := by
  rw [sendGmailApi]
  split
  · exact definite_of_ok rfl
  · exact definite_of_error rfl (http_raised_kind _ _ _ _ _ _ _)

theorem sendGmail_definite (calls : OauthCalls) : (sendGmail py account payload calls).Definite := by
  rw [sendGmail]
  split
  · exact sendSmtpXoauth_definite _ calls
  · split
    · exact definite_of_not_issued rfl
    · exact definite_of_not_issued rfl
    · split
      · split
        · exact definite_of_not_issued rfl
        · exact sendSmtpXoauthWith_definite _ calls.smtp
        · exact sendGmailApi_definite calls
      · exact sendGmailApi_definite calls

theorem sendGraph_definite (calls : OauthCalls) : (sendGraph account calls).Definite := by
  rw [sendGraph]
  split
  · exact definite_of_not_issued rfl
  · split
    · exact definite_of_not_issued rfl
    · split
      · exact definite_of_not_issued rfl
      · exact definite_of_ok rfl
      · exact definite_of_error rfl (http_raised_kind _ _ _ _ _ _ _)

theorem sendOutboundOauth_definite (calls : OauthCalls) : (sendOutboundOauth py account payload calls).Definite := by
  rw [sendOutboundOauth]
  split_ifs
  · exact sendGmail_definite calls
  · exact sendSmtpXoauth_definite _ calls
  · exact sendGraph_definite calls
  · exact definite_of_not_issued rfl

theorem sending_definite (h : sendingOf py account payload script = .ok (s, folder)) : s.Definite := by
  obtain ⟨_, -, h⟩ := except_bind_ok h
  rw [dispatch] at h
  split_ifs at h
  · obtain ⟨rfl, -⟩ := Prod.mk.inj (Except.ok.inj h)
    exact sendSmtpMessage_definite script.smtp
  · obtain ⟨rfl, -⟩ := Prod.mk.inj (Except.ok.inj h)
    exact sendOutboundOauth_definite script.oauth
  · obtain ⟨rfl, -⟩ := Prod.mk.inj (Except.ok.inj h)
    exact sendSmtpMessage_definite script.smtp
  · obtain ⟨rfl, -⟩ := Prod.mk.inj (Except.ok.inj h)
    exact sendOutboundOauth_definite script.oauth

/-! ### The search of the Sent folder -/

theorem reconcile_eq : reconcile py account payload script folder =
    (sentMatches py account payload script folder).map single := by
  cases folder with
  | graph => rfl
  | imap =>
    rw [reconcile, reconcileSentFolder, sentMatches]
    rcases sentFolderMatches py account payload script.now script.imap with e | found
    · rfl
    · rcases found with - | ⟨a, - | ⟨b, found⟩⟩ <;> rfl

/-- What the loop has found it keeps. -/
theorem imapMatches_ne_nil {subject : String} {now : ℤ} {window : ℕ} {fetch : ℕ → Except Raised FetchData} :
    ∀ {uids found result : List ℕ}, imapMatches py subject now window fetch uids found = .ok result →
      (found ≠ [] ∨ ∃ u ∈ uids, ∀ data, fetch u = .ok data → imapMatch py subject now window data = .ok true) →
      result ≠ []
  | [], found, result, h, hex => by
    obtain rfl := Except.ok.inj h
    exact hex.resolve_right fun ⟨u, hu, _⟩ => nomatch hu
  | uid :: uids, found, result, h, hex => by
    obtain ⟨data, hdata, h⟩ := except_bind_ok h
    obtain ⟨hit, hhit, h⟩ := except_bind_ok h
    have hnext : (if hit then found ++ [uid] else found) ≠ [] ∨
        ∃ u ∈ uids, ∀ data, fetch u = .ok data → imapMatch py subject now window data = .ok true := by
      rcases hex with hex | ⟨u, hu, hmatch⟩
      · left
        split
        · simp
        · exact hex
      · rcases List.mem_cons.mp hu with rfl | hu
        · left
          rw [hmatch data hdata] at hhit
          obtain rfl := Except.ok.inj hhit
          simp
        · exact .inr ⟨u, hu, hmatch⟩
    dsimp only at h
    generalize (if hit then found ++ [uid] else found) = found' at h hnext
    split at h
    · rename_i hfull
      rw [← Except.ok.inj h]
      intro hnil
      rw [hnil] at hfull
      exact absurd hfull (by decide)
    · exact imapMatches_ne_nil h hnext

theorem graphMatches_ne_nil {subject : String} {now : ℤ} {window : ℕ} :
    ∀ {items : List GraphItem} {found : List String},
      (found ≠ [] ∨ ∃ item ∈ items, graphMatch py subject now window item = true) →
      graphMatches py subject now window items found ≠ []
  | [], found, hex => hex.resolve_right fun ⟨item, hitem, _⟩ => nomatch hitem
  | item :: items, found, hex => by
    rw [graphMatches]
    have hnext : (if graphMatch py subject now window item then found ++ [item.id.getD ""] else found) ≠ [] ∨
        ∃ item ∈ items, graphMatch py subject now window item = true := by
      rcases hex with hex | ⟨item', hitem, hmatch⟩
      · left
        split
        · simp
        · exact hex
      · rcases List.mem_cons.mp hitem with rfl | hitem
        · left
          simp [hmatch]
        · exact .inr ⟨item', hitem, hmatch⟩
    generalize (if graphMatch py subject now window item then found ++ [item.id.getD ""] else found) = found'
      at hnext
    split
    · rename_i hfull
      intro hnil
      rw [hnil] at hfull
      exact absurd hfull (by decide)
    · exact graphMatches_ne_nil hnext

/-- A search that answers finds a committed message that the filter takes. -/
theorem sentMatches_of_committed {sent : List Entry} {job : Option ℕ} {d : Delivery}
    {found : List String} (hshows : Shows py (⟨job, payload.subject, d⟩ :: sent) payload script)
    (hpass : passesFilter py payload script.now d folder = true)
    (hfound : sentMatches py account payload script folder = .ok found) : found ≠ [] := by
  cases folder with
  | imap =>
    rw [sentMatches] at hfound
    split at hfound
    · rename_i uids hmatches
      obtain rfl := Except.ok.inj hfound
      rw [sentFolderMatches] at hmatches
      obtain ⟨_, -, hmatches⟩ := except_bind_ok hmatches
      obtain ⟨_, -, hmatches⟩ := except_bind_ok hmatches
      obtain ⟨_, -, hmatches⟩ := except_bind_ok hmatches
      obtain ⟨recent, hrecent, hmatches⟩ := except_bind_ok hmatches
      have huid : d.uid ∈ recent := hshows.search recent hrecent _ List.mem_cons_self rfl
      have hne : uids ≠ [] := by
        refine imapMatches_ne_nil hmatches (.inr ⟨d.uid, ?_, fun data hdata => ?_⟩)
        · rwa [List.mem_reverse, Ordered.mem_sortBy]
        · rw [hshows.fetch _ List.mem_cons_self data hdata]
          rw [passesFilter] at hpass
          split at hpass
          · rename_i hit hhit
            rw [hhit, hpass]
          · cases hpass
      exact fun h => hne (List.map_eq_nil_iff.mp h)
    · cases hfound
  | graph =>
    rw [sentMatches, graphSentMatches] at hfound
    obtain ⟨_, -, hfound⟩ := except_bind_ok hfound
    split at hfound
    · rename_i items hitems
      rw [← Except.ok.inj hfound]
      have hitem : d.graph ∈ items := hshows.list items hitems ⟨job, payload.subject, d⟩ (by simp)
      exact graphMatches_ne_nil (.inr ⟨d.graph, hitem, hpass⟩)
    · split at hfound <;> cases hfound

/-! ### One attempt -/

theorem reportOf_retry {attempts : ℕ} {outcome : Except Raised (Option String)}
    (h : (reportOf attempts outcome).status = .retry) : ∃ e, outcome = .error e ∧ e.kind.retryable = true := by
  rcases outcome with e | id
  · refine ⟨e, rfl, ?_⟩
    rw [reportOf] at h
    split at h
    · cases h
    · cases h
    · cases h
    · cases h
    · split at h
      · assumption
      · cases h
  · cases h

theorem pending_of_report {attempts : ℕ} {status : Status} (h : reportOutboundResult attempts status = .pending) :
    status = .retry ∧ attempts < maxAttempts := by
  cases status with
  | succeeded | failed | unsupported => cases h
  | retry =>
    rw [reportOutboundResult] at h
    split at h
    · cases h
    · exact ⟨rfl, Nat.not_le.mp ‹_›⟩

theorem toOption_eq_some {α ε : Type} {x : Except ε α} {v : α} (h : x.toOption = some v) : x = .ok v := by
  cases x with
  | error _ => cases h
  | ok v' => rw [Option.some.inj h]

theorem Attempt.sending_eq (h : a.sending py payload = some (s, folder)) : ∃ account, a.account = some account ∧
    account.canSend = true ∧ sendingOf py account payload a.script = .ok (s, folder) := by
  rw [Attempt.sending] at h
  split at h
  · cases h
  · rename_i account haccount
    split at h
    · cases h
    · rename_i hcan
      exact ⟨account, haccount, by simpa using hcan, toOption_eq_some h⟩

/-- What the report on an attempt that sends depends on. -/
theorem processJob_eq {attempts : ℕ} (haccount : a.account = some account) (hcan : account.canSend = true)
    (hsending : sendingOf py account payload a.script = .ok (s, folder)) :
    processJob py a.account a.accountFetchFailed attempts payload a.script =
      reportOf attempts (afterReconcile s ((sentMatches py account payload a.script folder).map single)) := by
  rw [haccount, processJob, if_neg (by simp [hcan]), executeOutbound, hsending, ← reconcile_eq]
  rfl

/-- The provider commits only what was sent. -/
theorem Attempt.committed_eq {entry : Entry} (h : a.committed py payload = some entry) :
    ∃ s folder d, a.sending py payload = some (s, folder) ∧ s.issued = true ∧ a.script.commits = some d ∧
      entry = ⟨some a.job, payload.subject, d⟩ := by
  rw [Attempt.committed] at h
  split at h
  · rename_i hissued
    obtain ⟨d, hd, rfl⟩ := Option.map_eq_some_iff.mp h
    rw [Attempt.issued, Option.any_eq_true] at hissued
    obtain ⟨⟨s, folder⟩, hs, hissued⟩ := hissued
    exact ⟨s, folder, d, hs, hissued, hd, rfl⟩
  · cases h

/-- What a finished attempt leaves for the next one: nothing committed, and if the outcome is unknown,
    a search that has shown it. -/
def Harmless (py : Python) (a : Attempt) (payload : Payload) : Prop :=
  a.committed py payload = none ∧ (a.unknown py payload = true → a.shownAbsent py payload = true)

/-- An attempt after which the job is pending, if its reconciliation was conclusive. -/
theorem pending_after (hrow : w.jobs a.job = some row) (hconclusive : Conclusive py w (.attempt a))
    (hshows : Shows py (w.attempted py a row).sent row.payload a.script)
    (hpending : reportOutboundResult (row.attempts + 1)
      (processJob py a.account a.accountFetchFailed (row.attempts + 1) row.payload a.script).status = .pending) :
    Harmless py a row.payload := by
  obtain ⟨hretry, hleft⟩ := pending_of_report hpending
  rcases hsending : a.sending py row.payload with - | ⟨s, folder⟩
  · -- nothing was sent
    refine ⟨?_, fun h => ?_⟩
    · rw [Attempt.committed, Attempt.issued, hsending]
      rfl
    · rw [Attempt.unknown, hsending] at h
      cases h
  · obtain ⟨account, haccount, hcan, hsend⟩ := Attempt.sending_eq hsending
    rw [processJob_eq haccount hcan hsend] at hretry
    obtain ⟨e, hafter, hkind⟩ := reportOf_retry hretry
    rcases hout : s.outcome with original | id
    · rw [afterReconcile, hout] at hafter
      dsimp only at hafter
      by_cases hunknown : original.kind = .outcomeUnknown
      · have hs : s.unknown = true := by
          rw [Sending.unknown, hout]
          exact beq_iff_eq.mpr hunknown
        have hcond := hconclusive a row account s folder rfl hrow haccount hsending hs hleft
        rw [if_pos hunknown] at hafter
        rcases hmatches : sentMatches py account row.payload a.script folder with lost | found
        · -- a search that fails with such an error ends the job
          rw [hmatches] at hcond hafter
          dsimp only [Except.map] at hcond hafter
          split at hafter
          · rename_i hrec
            rw [hrec] at hcond
            cases hcond
          · rw [Except.error.inj hafter, hkind] at hcond
            cases hcond
        · rw [hmatches] at hcond hafter
          dsimp only at hcond
          obtain ⟨hlen, hown⟩ := hcond
          rcases found with - | ⟨m, rest⟩
          · refine ⟨?_, fun _ => ?_⟩
            · rcases hcommit : a.committed py row.payload with - | entry
              · rfl
              · obtain ⟨s', folder', d, hs', hissued, hd, rfl⟩ := Attempt.committed_eq hcommit
                obtain ⟨rfl, rfl⟩ := Prod.mk.inj (Option.some.inj (hsending.symm.trans hs'))
                rw [World.attempted, hcommit] at hshows
                exact absurd rfl (sentMatches_of_committed hshows (hown rfl hissued d hd) hmatches)
            · rw [Attempt.shownAbsent, Attempt.answer, haccount, hsending]
              simp [hmatches]
          · -- the one match is taken for the message, and the job has succeeded
            obtain rfl : rest = [] := by
              rw [List.length_cons] at hlen
              exact List.length_eq_zero_iff.mp (by omega)
            cases hafter
      · rw [if_neg hunknown] at hafter
        obtain rfl := Except.error.inj hafter
        have hissued : s.issued = false := sending_definite hsend original hout hunknown hkind
        refine ⟨?_, fun h => ?_⟩
        · rw [Attempt.committed, Attempt.issued, hsending, Option.any_some, hissued]
          rfl
        · rw [Attempt.unknown, hsending, Option.any_some, Sending.unknown, hout] at h
          exact absurd (beq_iff_eq.mp h) hunknown
    · rw [afterReconcile, hout] at hafter
      cases hafter

/-! ### Runs -/

/-- No attempt of the job has committed its message, and every unknown outcome was shown to be that. -/
structure Clean (w : World) (job : ℕ) : Prop where
  sent : w.commits job = []
  past : ∀ p ∈ w.history, p.job = job → p.committed = false ∧ (p.unknown = true → p.shownAbsent = true)

/-- What holds along a run whose reconciliations are conclusive. -/
structure Safe (w : World) : Prop where
  once : ∀ job, (w.commits job).length ≤ 1
  open_clean : ∀ job, (∀ row, w.jobs job = some row → row.status = .pending) → Clean w job

theorem safe_init (h : (outbound py).init w) : Safe w := by
  have hnone : ∀ job, w.commits job = [] := fun job =>
    List.filter_eq_nil_iff.mpr fun e he => by simp [h.2.2 e he]
  refine ⟨fun job => by rw [hnone]; exact Nat.zero_le 1, fun job _ => ⟨hnone job, ?_⟩⟩
  rw [h.2.1]
  exact fun p hp => nomatch hp

theorem commits_attempted (job : ℕ) : (w.attempted py a row).commits job =
    (a.committed py row.payload).toList.filter (fun e => e.job = some job) ++ w.commits job := by
  rw [World.commits, World.attempted, List.filter_append]
  rfl

theorem commits_other {job : ℕ} (hne : job ≠ a.job) : (w.attempted py a row).commits job = w.commits job := by
  rw [commits_attempted, List.filter_eq_nil_iff.mpr, List.nil_append]
  intro entry hentry
  obtain ⟨_, _, _, -, -, -, rfl⟩ := Attempt.committed_eq (Option.mem_toList.mp hentry)
  simpa using Ne.symm hne

theorem safe_step {e : Event} {w' : World} (h : Safe w) (hconclusive : Conclusive py w e) (hstep : Step py w e w') :
    Safe w' := by
  cases hstep with
  | enqueue hnew =>
    rename_i job' payload
    refine ⟨h.once, fun job hopen => ?_⟩
    have hclean : Clean w job := by
      refine h.open_clean job fun row hrow => ?_
      refine hopen row ?_
      rw [World.enqueued]
      dsimp only
      rw [if_neg, hrow]
      rintro rfl
      rw [hnew] at hrow
      cases hrow
    exact ⟨hclean.sent, hclean.past⟩
  | elsewhere =>
    rename_i subject delivery
    have hcommits : ∀ job, World.commits { w with sent := ⟨none, subject, delivery⟩ :: w.sent } job = w.commits job :=
      fun job => List.filter_cons_of_neg (by simp)
    refine ⟨fun job => by rw [hcommits]; exact h.once job, fun job hopen => ?_⟩
    have hclean := h.open_clean job hopen
    exact ⟨by rw [hcommits]; exact hclean.sent, hclean.past⟩
  | attempt hrow hpending hshows =>
    rename_i a row
    have hbefore : Clean w a.job := h.open_clean a.job fun row' hrow' => by
      rw [← Option.some.inj (hrow.symm.trans hrow')]
      exact hpending
    refine ⟨fun job => ?_, fun job hopen => ?_⟩
    · by_cases hjob : job = a.job
      · rw [commits_attempted, hjob, hbefore.sent, List.append_nil]
        refine (List.length_filter_le _ _).trans ?_
        cases a.committed py row.payload <;> simp
      · rw [commits_other hjob]
        exact h.once job
    · by_cases hjob : job = a.job
      · subst hjob
        have hafter := hopen _ (by rw [World.attempted]; exact if_pos rfl)
        obtain ⟨hnone, hshown⟩ := pending_after hrow hconclusive hshows hafter
        refine ⟨?_, fun p hp hp' => ?_⟩
        · rw [commits_attempted, hnone, hbefore.sent]
          rfl
        · rcases List.mem_cons.mp hp with rfl | hp
          · exact ⟨by simp [hnone], hshown⟩
          · exact hbefore.past p hp hp'
      · have hclean : Clean w job := by
          refine h.open_clean job fun row' hrow' => hopen row' ?_
          rw [World.attempted]
          exact (if_neg hjob).trans hrow'
        refine ⟨by rw [commits_other hjob]; exact hclean.sent, fun p hp hp' => ?_⟩
        rcases List.mem_cons.mp hp with rfl | hp
        · exact absurd hp'.symm hjob
        · exact hclean.past p hp hp'

theorem safe_run (h : Transition.Run (outbound py) (Conclusive py) w) : Safe w :=
  h.invariant (fun _ => safe_init) fun _ _ _ _ hsafe hconclusive hstep => safe_step hsafe hconclusive hstep

/-- Along every run whose reconciliations are conclusive, the provider has committed no message of a job
    twice, and the next attempt issues a new send only if every earlier one that ended with the outcome
    unknown has been shown not to be committed. -/
theorem outbound_at_most_once (py : Python) (w : World) (h : Transition.Run (outbound py) (Conclusive py) w) :
    (∀ job, (w.commits job).length ≤ 1) ∧ ∀ e w', Step py w e w' → SendsOnlyAfterAbsence py w e := by
  refine ⟨(safe_run h).once, ?_⟩
  rintro e w' hstep a row rfl hrow - p hp hjob hunknown
  cases hstep with
  | attempt hrow' hpending _ =>
    have hclean := (safe_run h).open_clean a.job fun row' hrow'' => by
      rw [← Option.some.inj (hrow'.symm.trans hrow'')]
      exact hpending
    obtain ⟨hnot, hshown⟩ := hclean.past p hp hjob
    exact ⟨hshown hunknown, hnot⟩

/-! ### A demonstration -/

/-- Python's functions on lower-case texts without outer blanks and on no dates. -/
def demoPy : Python := ⟨fun t => t, fun t => t, fun _ => none, fun _ => none⟩

def demoAccount : Account := ⟨"a1", "imap_qq", "me@qq.com", "secret", none, true, false, "smtp.qq.com"⟩

def demoPayload : Payload := ⟨"me@qq.com", "you@example.org", "hello", none, none, none⟩

def demoRow (attempts : ℕ) : JobRow := ⟨demoPayload, .pending, attempts⟩

def lostConnection : SmtpError := ⟨.os, "timed out"⟩

def noOauth : OauthCalls :=
  ⟨.error ⟨.other, ""⟩, ⟨.ok (), .ok (), .ok (), .ok (334, ""), .ok []⟩, .ok [], .ok none, .ok ()⟩

def noGraph : GraphCalls := ⟨.error ⟨.other, ""⟩, .error ⟨.other, ""⟩⟩

/-- The Sent folder answers that it has no message of the subject. -/
def emptySentFolder : ImapCalls := ⟨.ok (), .ok ["Sent"], .ok (), .ok [], fun _ => .error ⟨.os, "no such message"⟩⟩

def unreachableSentFolder : ImapCalls :=
  ⟨.error ⟨.os, "timed out"⟩, .ok [], .ok (), .error ⟨.os, "timed out"⟩, fun _ => .error ⟨.os, "timed out"⟩⟩

/-- The connection is lost before the message is sent, and the Sent folder is empty. -/
def demoFirst : Attempt :=
  ⟨1, some demoAccount, false, ⟨.ok (), ⟨.ok (), .error lostConnection, .ok (), .ok (334, ""), .ok []⟩, noOauth,
    emptySentFolder, noGraph, 0, none⟩⟩

/-- The message is sent and acknowledged. -/
def demoSecond : Attempt :=
  ⟨1, some demoAccount, false, ⟨.ok (), ⟨.ok (), .ok (), .ok (), .ok (334, ""), .ok []⟩, noOauth,
    unreachableSentFolder, noGraph, 0, some ⟨7, ⟨.absent, ""⟩, ⟨none, "hello", none⟩⟩⟩⟩

/-- The message is committed, the connection is lost before the answer, and the Sent folder cannot be read. -/
def demoLost : Attempt :=
  ⟨1, some demoAccount, false, ⟨.ok (), ⟨.ok (), .ok (), .ok (), .ok (334, ""), .error lostConnection⟩, noOauth,
    unreachableSentFolder, noGraph, 0, some ⟨7, ⟨.absent, ""⟩, ⟨none, "hello", none⟩⟩⟩⟩

def demoQueued : World := World.enqueued ⟨[], fun _ => none, []⟩ 1 demoPayload

def demoRetried : World := demoQueued.attempted demoPy demoFirst (demoRow 0)

theorem unread_shows {sent : List Entry} {payload : Payload} (hsearch : script.imap.search = .error e)
    (hfetch : ∀ u, script.imap.fetch u = .error e) (hlist : script.graph = noGraph) :
    Shows py sent payload script := by
  refine ⟨fun recent h => ?_, fun _ _ data h => ?_, fun items h => ?_⟩
  · rw [hsearch] at h
    cases h
  · rw [hfetch] at h
    cases h
  · rw [hlist] at h
    cases h

theorem outbound_at_most_once_demo :
    (∀ job, ((demoRetried.attempted demoPy demoSecond (demoRow 1)).commits job).length ≤ 1) ∧
      SendsOnlyAfterAbsence demoPy demoRetried (.attempt demoSecond) := by
  have hstart : Transition.Run (outbound demoPy) (Conclusive demoPy) ⟨[], fun _ => none, []⟩ :=
    .start ⟨fun _ => rfl, rfl, fun _ h => nomatch h⟩
  have hqueued : Transition.Run (outbound demoPy) (Conclusive demoPy) demoQueued := by
    have hconclusive : Conclusive demoPy ⟨[], fun _ => none, []⟩ (.enqueue 1 demoPayload) :=
      fun _ _ _ _ _ h => nomatch h
    exact hstart.next hconclusive (.enqueue rfl)
  -- the first attempt sends nothing, and the search shows it
  have hretried : Transition.Run (outbound demoPy) (Conclusive demoPy) demoRetried := by
    have hsent : (demoQueued.attempted demoPy demoFirst (demoRow 0)).sent = [] := by decide
    have hconclusive : Conclusive demoPy demoQueued (.attempt demoFirst) := by
      rintro a row account s folder ha hrow haccount hsending - -
      obtain rfl := Event.attempt.inj ha
      obtain rfl := Option.some.inj haccount
      obtain rfl : demoRow 0 = row := Option.some.inj hrow
      obtain ⟨rfl, rfl⟩ := Prod.mk.inj (Option.some.inj hsending)
      exact ⟨by decide, fun _ h => nomatch h⟩
    refine hqueued.next hconclusive (.attempt rfl rfl ⟨fun recent _ e he => ?_, fun e he => ?_, fun _ h => ?_⟩)
    · rw [hsent] at he
      cases he
    · rw [hsent] at he
      cases he
    · cases h
  have hstep : Step demoPy demoRetried (.attempt demoSecond) (demoRetried.attempted demoPy demoSecond (demoRow 1)) :=
    .attempt rfl rfl (unread_shows rfl (fun _ => rfl) rfl)
  have hconclusive : Conclusive demoPy demoRetried (.attempt demoSecond) := by
    rintro a row account s folder ha hrow haccount hsending hunknown -
    obtain rfl := Event.attempt.inj ha
    obtain rfl : demoRow 1 = row := Option.some.inj hrow
    obtain ⟨rfl, rfl⟩ := Prod.mk.inj (Option.some.inj hsending)
    cases hunknown
  exact ⟨(outbound_at_most_once demoPy _ (hretried.next hconclusive hstep)).1,
    (outbound_at_most_once demoPy _ hretried).2 _ _ hstep⟩

/-- After an attempt whose outcome nobody could find out the next one sends again. -/
theorem unknown_outcome_resent : ∃ w, Transition.Reachable (outbound demoPy) w ∧ (w.commits 1).length = 2 := by
  have hstart : Transition.Reachable (outbound demoPy) ⟨[], fun _ => none, []⟩ :=
    .start ⟨fun _ => rfl, rfl, fun _ h => nomatch h⟩
  have hqueued : Transition.Reachable (outbound demoPy) demoQueued := hstart.step (.enqueue rfl)
  have hlost : Transition.Reachable (outbound demoPy) (demoQueued.attempted demoPy demoLost (demoRow 0)) :=
    hqueued.step (.attempt rfl rfl (unread_shows rfl (fun _ => rfl) rfl))
  refine ⟨_, hlost.step (.attempt rfl rfl (unread_shows rfl (fun _ => rfl) rfl) : Step demoPy _
    (.attempt demoSecond) ((demoQueued.attempted demoPy demoLost (demoRow 0)).attempted demoPy demoSecond
      (demoRow 1))), ?_⟩
  decide

end OneMail.Outbound
