import OneMail.Lib.Resend
import OneMail.Upload.Uploader

/-! What an upload delivers, whatever the servers and the network answer.

    Of the rows of each destination a beginning is acknowledged, each row once and in order, and the upload
    returns exactly if that is all of them. -/

namespace OneMail.Upload
open Retry

/-! ### What is read off the log -/

section Reading

variable {V C : Type} (py : Python V) (kind : Kind)

abbrev Sent (C V : Type) := Request C × Answer V

/-- The counters of a chunk that was acknowledged. -/
def accepted (e : Sent C V) : Option Counts :=
  match e.1 with
  | .ingest _ rows => match judgeIngest py kind rows.length e.2 with
    | .accept counts => some counts
    | _ => none
  | .attachment _ _ => none

/-- The rows that a destination has acknowledged. -/
def acknowledged (d : WorkerDestination) (sent : List (Sent C V)) : List (Row C) := sent.flatMap fun e =>
  match e.1 with
  | .ingest d' rows => if d' = d ∧ (accepted py kind e).isSome then rows else []
  | .attachment _ _ => []

/-- All counters that were acknowledged. -/
def counted (sent : List (Sent C V)) : Counts := (sent.filterMap (accepted py kind)).sum

def isPost (d : WorkerDestination) (e : Sent C V) : Bool :=
  match e.1 with
  | .ingest d' _ => d' = d
  | .attachment _ _ => false

/-- The posts to a destination. -/
def posts (d : WorkerDestination) (sent : List (Sent C V)) : ℕ := sent.countP (isPost d)

/-- The destination has answered that its database is exhausted for the day. -/
def Exhausted (a : Answer V) : Prop :=
  match a.reply with
  | .raised => False
  | .answered status body => (databaseQuotaError py status body a.now).isSome = true

/-- A row without what the uploader puts into it. -/
def Row.bare (row : Row C) : Row C := { row with payloads := none, attachmentsJson := none, hasAttachments := none }

/-- The posts to a destination, and which of them it acknowledged. -/
def postsTo (d : WorkerDestination) (sent : List (Sent C V)) : List (List (Row C) × Bool) := sent.filterMap fun e =>
  match e.1 with
  | .ingest d' rows => if d' = d then some (rows.map Row.bare, (accepted py kind e).isSome) else none
  | .attachment _ _ => none

/-- The content of a payload was put, and the metadata has the key from the answer. -/
def Kept (d : WorkerDestination) (row : Row C) (sent : List (Sent C V)) (payload : Payload) (m : Metadata) : Prop :=
  ∃ content key body now, payload.content = some content ∧
    (.attachment d (putOf d row payload content), ⟨.answered 200 body, now⟩) ∈ sent ∧
    storageKeyOf py body = .ok key ∧ m = metadataOf payload content key

/-- A row as it may be posted after these requests. -/
def Stored (d : WorkerDestination) (sent : List (Sent C V)) (row posted : Row C) : Prop :=
  match row.payloads with
  | none => posted = row
  | some payloads => ∃ metadata, List.Forall₂ (Kept py d row sent) payloads metadata ∧
      posted = { row with
        payloads := none
        attachmentsJson := some metadata
        hasAttachments := some (if metadata = [] then 0 else 1) }

/-- A chunk as it may be posted after these requests. -/
def Prepared (d : WorkerDestination) (sent : List (Sent C V)) (chunk posted : List (Row C)) : Prop :=
  match kind with
  | .emails => List.Forall₂ (Stored py d sent) chunk posted
  | .folders => posted = chunk

/-- The rows of a post are rows for this destination, with their attachments put before. -/
def Backed (rows : WorkerDestination → List (Row C)) (before : List (Sent C V)) (e : Sent C V) : Prop :=
  match e.1 with
  | .ingest d posted => ∃ chunk ⊆ rows d, Prepared py kind d before chunk posted
  | .attachment _ _ => True

end Reading

/-! ### Small facts about the readings -/

section Readings

variable {V C : Type} {py : Python V} {kind : Kind} {d d' : WorkerDestination} {l l' : List (Sent C V)}
  {rows : List (Row C)} {replies : List (Answer V)}

theorem acknowledged_append : acknowledged py kind d (l ++ l') = acknowledged py kind d l ++ acknowledged py kind d l' :=
  List.flatMap_append

theorem counted_append : counted py kind (l ++ l') = counted py kind l + counted py kind l' := by
  rw [counted, List.filterMap_append, List.sum_append, counted, counted]

theorem postsTo_append : postsTo py kind d (l ++ l') = postsTo py kind d l ++ postsTo py kind d l' :=
  List.filterMap_append

theorem posts_append : posts d (l ++ l') = posts d l + posts d l' := List.countP_append

/-- Requests to other destinations count for nothing. -/
theorem elsewhere (h : ∀ e ∈ l, e.1.destination ≠ d) :
    acknowledged py kind d l = [] ∧ posts d l = 0 ∧ postsTo py kind d l = [] := by
  refine ⟨?_, ?_, ?_⟩
  · refine List.flatMap_eq_nil_iff.mpr fun e he => ?_
    have hne := h e he
    split
    · rename_i d' rows heq
      rw [heq] at hne
      exact if_neg fun h => hne h.1
    · rfl
  · refine List.countP_eq_zero.mpr fun e he hpost => ?_
    have hne := h e he
    unfold isPost at hpost
    split at hpost
    · rename_i d' rows heq
      rw [heq] at hne
      exact hne (of_decide_eq_true hpost)
    · cases hpost
  · refine List.filterMap_eq_nil_iff.mpr fun e he => ?_
    have hne := h e he
    split
    · rename_i d' rows heq
      rw [heq] at hne
      exact if_neg hne
    · rfl

/-- The acknowledged rows by the posts. -/
theorem acknowledged_postsTo : (acknowledged py kind d l).map Row.bare =
    ((postsTo py kind d l).filter (·.2)).flatMap (·.1) := by
  induction l with
  | nil => rfl
  | cons e l ih =>
    rw [acknowledged, postsTo] at ih
    rw [acknowledged, postsTo, List.flatMap_cons, List.map_append, ih, List.filterMap_cons]
    rcases he : e.1 with ⟨d', rows⟩ | ⟨d', put⟩
    · by_cases hd : d' = d
      · cases accepted py kind e <;> simp [hd]
      · simp [hd]
    · rfl

theorem accepted_post (a : Answer V) (counts : Counts) : accepted py kind (.ingest d rows, a) = some counts ↔
    judgeIngest py kind rows.length a = .accept counts := by
  simp only [accepted]
  split
  · rename_i h
    rw [h, Option.some_inj, Verdict.accept.injEq]
  · rename_i h
    exact iff_of_false (fun h => nomatch h) (h counts)

theorem exhausted_of_stop {n : ℕ} {a : Answer V} {cause : Cause} (h : judgeIngest py kind n a = .stop cause) :
    Exhausted py a := by
  unfold judgeIngest at h
  split at h
  · cases h
  · rename_i status body heq
    unfold Exhausted
    rw [heq]
    split at h
    · split at h <;> cases h
    · split at h
      · rename_i quota hquota
        dsimp only
        rw [hquota, Option.isSome_some]
      · cases h

/-- A status of 200 is no quota reply. -/
theorem databaseQuotaError_ok (body : Body V) (now : ℚ) : databaseQuotaError py 200 body now = none := if_pos (by decide)

/-- A try that is followed by another one, or accepted, says nothing of a quota. -/
theorem not_exhausted_post {n : ℕ} {a : Answer V} (h : ∀ cause, judgeIngest py kind n a ≠ .stop cause) :
    ¬Exhausted py a := by
  unfold judgeIngest at h
  unfold Exhausted
  rcases a with ⟨- | ⟨status, body⟩, now⟩
  · exact id
  · dsimp only at h ⊢
    split at h
    · rename_i hstatus
      rw [hstatus, databaseQuotaError_ok]
      exact Bool.false_ne_true
    · split at h
      · exact absurd rfl (h _)
      · rename_i hnone
        rw [hnone]
        exact Bool.false_ne_true

theorem not_exhausted_put {a : Answer V} (h : ∀ cause, judgePut py a ≠ .stop cause) : ¬Exhausted py a := by
  unfold judgePut at h
  unfold Exhausted
  rcases a with ⟨- | ⟨status, body⟩, now⟩
  · exact id
  · dsimp only at h ⊢
    split at h
    · rename_i hstatus
      rw [hstatus, databaseQuotaError_ok]
      exact Bool.false_ne_true
    · split at h
      · exact absurd rfl (h _)
      · rename_i hnone
        rw [hnone]
        exact Bool.false_ne_true

theorem put_accepted {a : Answer V} {body : Body V} (h : judgePut py a = .accept body) : a.reply = .answered 200 body := by
  unfold judgePut at h
  split at h
  · cases h
  · rename_i status body' heq
    split at h
    · rename_i hstatus
      rw [heq, hstatus, Verdict.accept.inj h]
    · split at h <;> cases h

end Readings

/-! ### Tries -/

/-- After a quota reply nothing is sent; if all goes well there is none. -/
def Quiet {V C : Type} (py : Python V) (ok : Bool) (sent : List (Sent C V)) : Prop :=
  (ok = true → ∀ e ∈ sent, ¬Exhausted py e.2) ∧ sent.Pairwise fun q _ => ¬Exhausted py q.2

section Tries

variable {V C : Type} {py : Python V} {kind : Kind} {d : WorkerDestination} {l l' : List (Sent C V)}

theorem quiet_nil {ok : Bool} : Quiet (C := C) py ok [] := ⟨fun _ _ h => (nomatch h), .nil⟩

theorem quiet_append {ok : Bool} (hl : Quiet py true l) (hl' : Quiet py ok l') : Quiet py ok (l ++ l') := by
  refine ⟨fun hok e he => ?_, List.pairwise_append.mpr ⟨hl.2, hl'.2, fun q hq _ _ => hl.1 rfl q hq⟩⟩
  exact (List.mem_append.mp he).elim (hl.1 rfl e) (hl'.1 hok e)

/-- Only the last of the tries may have got a quota reply, and not if it is accepted. -/
theorem quiet_tries {β : Type} {judge : Answer V → Verdict β Cause} (request : Request C) {fails final : List (Answer V)}
    {result : Except (Option Cause) β} (hjudge : ∀ a, (∀ cause, judge a ≠ .stop cause) → ¬Exhausted py a)
    (hfails : ∀ a ∈ fails, ∃ cause, judge a = .again cause) (hends : Ends judge result final) :
    Quiet py result.isOk ((fails ++ final).map (Prod.mk request)) := by
  have hfails' : ∀ e ∈ fails.map (Prod.mk request), ¬Exhausted py e.2 := by
    rintro e he
    obtain ⟨a, ha, rfl⟩ := List.mem_map.mp he
    obtain ⟨cause, hcause⟩ := hfails a ha
    refine hjudge a fun cause' h => ?_
    rw [hcause] at h
    cases h
  rw [List.map_append]
  refine quiet_append ⟨fun _ => hfails', ?_⟩ ?_
  · exact List.pairwise_of_forall_mem_list fun q hq _ _ => hfails' q hq
  · rcases hends with ⟨a, value, h⟩ | ⟨a, error, h⟩ | ⟨last⟩
    · refine ⟨fun _ e he => ?_, List.pairwise_singleton _ _⟩
      rw [List.mem_singleton.mp he]
      refine hjudge a fun cause h' => ?_
      rw [h] at h'
      cases h'
    · exact ⟨fun h => (nomatch h), List.pairwise_singleton _ _⟩
    · exact quiet_nil

/-! ### Attachments -/

/-- What the upload of attachments adds to the log: puts to the destination. -/
def Puts (py : Python V) (d : WorkerDestination) (ok : Bool) (sent : List (Sent C V)) : Prop :=
  (∀ e ∈ sent, ∃ put, e.1 = .attachment d put) ∧ Quiet py ok sent

theorem puts_nil : Puts (C := C) py d true [] := ⟨fun _ h => (nomatch h), quiet_nil⟩

theorem puts_append {ok : Bool} (hl : Puts py d true l) (hl' : Puts py d ok l') : Puts py d ok (l ++ l') :=
  ⟨fun e he => (List.mem_append.mp he).elim (hl.1 e) (hl'.1 e), quiet_append hl.2 hl'.2⟩

theorem puts_weaken (h : Puts py d true l) (ok : Bool) : Puts py d ok l := ⟨h.1, fun _ => h.2.1 rfl, h.2.2⟩

theorem kept_mono {row : Row C} {payload : Payload} {m : Metadata} (hsub : l ⊆ l') (h : Kept py d row l payload m) :
    Kept py d row l' payload m := by
  obtain ⟨content, key, body, now, hcontent, hmem, hkey, hm⟩ := h
  exact ⟨content, key, body, now, hcontent, hsub hmem, hkey, hm⟩

theorem stored_mono {row posted : Row C} (hsub : l ⊆ l') (h : Stored py d l row posted) : Stored py d l' row posted := by
  unfold Stored at h ⊢
  split at h
  · exact h
  · obtain ⟨metadata, hkept, hposted⟩ := h
    exact ⟨metadata, hkept.imp fun _ _ => kept_mono hsub, hposted⟩

theorem bare_stored {row posted : Row C} (h : Stored py d l row posted) : posted.bare = row.bare := by
  unfold Stored at h
  split at h
  · rw [h]
  · obtain ⟨metadata, -, rfl⟩ := h
    rfl

variable (answer : ℕ → Answer V) (maxRetries : ℕ)

theorem storePayload_yields (row : Row C) (payload : Payload) :
    Yields (Puts py d) (fun sent m => Kept py d row sent payload m) (storePayload py answer maxRetries d row payload) := by
  have hnone : ∀ log : List (Sent C V), ∃ added, log = log ++ added ∧ Puts py d false added :=
    fun log => ⟨[], (List.append_nil log).symm, puts_weaken puts_nil _⟩
  intro log
  rw [storePayload]
  split
  · exact hnone log
  · rename_i content hcontent
    dsimp only
    split
    · exact hnone log
    · split
      · exact hnone log
      · have hspec := attempts_spec answer (judgePut py) (Request.attachment (C := C) d (putOf d row payload content))
          maxRetries none log
        generalize attempts answer (judgePut py) _ maxRetries none log = outcome at *
        obtain ⟨fails, final, hlog, hfails, -, hends⟩ := hspec
        obtain ⟨result, log'⟩ := outcome
        have hquiet := quiet_tries (Request.attachment (C := C) d (putOf d row payload content))
          (fun a => not_exhausted_put) hfails hends
        have hputs : ∀ e ∈ (fails ++ final).map (Prod.mk (Request.attachment (C := C) d (putOf d row payload content))),
            ∃ put, e.1 = .attachment d put := by
          rintro e he
          obtain ⟨a, -, rfl⟩ := List.mem_map.mp he
          exact ⟨_, rfl⟩
        dsimp only at hlog
        subst hlog
        rcases result with cause | body
        · exact ⟨_, rfl, hputs, hquiet⟩
        · dsimp only
          rcases hkey : storageKeyOf py body with cause | key
          · exact ⟨_, rfl, puts_weaken ⟨hputs, hquiet⟩ _⟩
          · refine ⟨_, rfl, ⟨hputs, hquiet⟩, content, key, body, ?_⟩
            rcases hends with ⟨a, _, h⟩
            refine ⟨a.now, hcontent, ?_, hkey, rfl⟩
            rw [List.map_append, List.map_singleton]
            refine List.mem_append_right _ (List.mem_singleton.mpr ?_)
            rw [← put_accepted h]

theorem storePayloads_yields (row : Row C) :
    Yields (Puts py d) (fun sent posted => Stored py d sent row posted)
      (storePayloads py answer maxRetries d row) := by
  intro log
  rw [storePayloads]
  rcases hpayloads : row.payloads with - | payloads
  · refine ⟨[], (List.append_nil log).symm, puts_nil, ?_⟩
    dsimp only
    rw [Stored, hpayloads]
  · have heach := each_yields puts_nil puts_append
      (fun {payload l₁ l₂ m} (h : Kept py d row l₁ payload m ∨ Kept py d row l₂ payload m) =>
        h.elim (kept_mono (List.subset_append_left l₁ l₂)) (kept_mono (List.subset_append_right l₁ l₂)))
      fun payload (_ : payload ∈ payloads) => storePayload_yields answer maxRetries row payload
    dsimp only
    split
    · rename_i e log' heq
      exact heach.error heq
    · rename_i metadata log' heq
      obtain ⟨added, rfl, hputs, hkept⟩ := heach.ok heq
      refine ⟨added, rfl, hputs, ?_⟩
      rw [Stored, hpayloads]
      exact ⟨metadata, hkept, rfl⟩

theorem uploadAttachmentPayloads_yields (rows : List (Row C)) :
    Yields (Puts py d) (fun sent posted => List.Forall₂ (Stored py d sent) rows posted)
      (uploadAttachmentPayloads py answer maxRetries d rows) :=
  each_yields puts_nil puts_append
    (fun {row l₁ l₂ posted} (h : Stored py d l₁ row posted ∨ Stored py d l₂ row posted) =>
      h.elim (stored_mono (List.subset_append_left l₁ l₂)) (stored_mono (List.subset_append_right l₁ l₂)))
    fun row _ => storePayloads_yields answer maxRetries row

/-! ### Chunks -/

/-- What an upload to one destination does to the state: `rows` are what it is for. -/
structure Part (py : Python V) (kind : Kind) (d : WorkerDestination) (rows : List (Row C)) (tries : ℕ) (s s' : State C V)
    (flow : Flow) (added : List (Sent C V)) : Prop where
  log : s'.log = s.log ++ added
  here : ∀ e ∈ added, e.1.destination = d
  quiet : Quiet py (flow = .next) added
  backed : Told (Backed py kind fun _ => rows) added
  totals : s'.totals = s.totals + counted py kind added
  acked : (acknowledged py kind d added).map Row.bare <+: rows.map Row.bare
  all : flow = .next ↔ (acknowledged py kind d added).map Row.bare = rows.map Row.bare
  bound : posts d added ≤ tries
  failures : ∃ more, s'.failures = s.failures ++ more ∧ (more = [] ↔ flow ≠ .leave)
  resent : ∃ left, Resend.Resent (rows.map Row.bare) (postsTo py kind d added) left ∧ (flow = .next → left = [])

/-- Puts count for nothing among the rows. -/
theorem puts_facts {ok : Bool} (h : Puts py d ok l) : acknowledged py kind d l = [] ∧ counted py kind l = 0 ∧
    posts d l = 0 ∧ postsTo py kind d l = [] ∧ (∀ e ∈ l, e.1.destination = d) ∧ ∀ rows, Told (Backed py kind rows) l := by
  have hput : ∀ e ∈ l, ∃ put, e.1 = .attachment d put := h.1
  refine ⟨List.flatMap_eq_nil_iff.mpr fun e he => ?_, ?_, List.countP_eq_zero.mpr fun e he => ?_,
    List.filterMap_eq_nil_iff.mpr fun e he => ?_, fun e he => ?_, ?_⟩
  · obtain ⟨put, heq⟩ := hput e he
    rw [heq]
  · have hnone : l.filterMap (accepted py kind) = [] := by
      refine List.filterMap_eq_nil_iff.mpr fun e he => ?_
      obtain ⟨put, heq⟩ := hput e he
      rw [accepted, heq]
    rw [counted, hnone, List.sum_nil]
  · obtain ⟨put, heq⟩ := hput e he
    rw [isPost, heq]
    exact Bool.false_ne_true
  · obtain ⟨put, heq⟩ := hput e he
    rw [heq]
  · obtain ⟨put, heq⟩ := hput e he
    rw [heq]
    rfl
  · rintro rows l₁ e l₂ rfl
    obtain ⟨put, heq⟩ := hput e (List.mem_append_right _ List.mem_cons_self)
    rw [Backed, heq]
    trivial

/-- What the tries of a post add up to. -/
theorem tries_facts {rows : List (Row C)} {result : Except (Option Cause) Counts} {fails final : List (Answer V)}
    (hfails : ∀ a ∈ fails, ∃ cause, judgeIngest py kind rows.length a = .again cause)
    (hends : Ends (judgeIngest py kind rows.length) result final) :
    acknowledged py kind d ((fails ++ final).map (Prod.mk (.ingest d rows))) = (match result with
      | .ok _ => rows
      | .error _ => []) ∧
    counted py kind ((fails ++ final).map (Prod.mk (.ingest d rows))) = (match result with
      | .ok counts => counts
      | .error _ => 0) ∧
    ∃ n, postsTo py kind d ((fails ++ final).map (Prod.mk (.ingest d rows))) = List.replicate n (rows.map Row.bare, false) ++
      match result with
      | .ok _ => [(rows.map Row.bare, true)]
      | .error _ => [] := by
  have hnone : ∀ a, (∀ counts, judgeIngest py kind rows.length a ≠ .accept counts) →
      accepted py kind (.ingest d rows, a) = none := by
    rintro a ha
    refine Option.eq_none_iff_forall_not_mem.mpr fun counts hcounts => ?_
    exact ha counts ((accepted_post a counts).mp hcounts)
  have hagain : ∀ a ∈ fails, accepted py kind (.ingest d rows, a) = none := by
    rintro a ha
    obtain ⟨cause, hcause⟩ := hfails a ha
    refine hnone a fun counts h => ?_
    rw [hcause] at h
    cases h
  have hfirst : acknowledged py kind d (fails.map (Prod.mk (.ingest d rows))) = [] ∧
      counted py kind (fails.map (Prod.mk (.ingest d rows))) = 0 := by
    constructor
    · refine List.flatMap_eq_nil_iff.mpr fun e he => ?_
      obtain ⟨a, ha, rfl⟩ := List.mem_map.mp he
      dsimp only
      rw [hagain a ha]
      exact if_neg fun h => nomatch h.2
    · have hempty : (fails.map (Prod.mk (.ingest d rows))).filterMap (accepted py kind) = [] := by
        refine List.filterMap_eq_nil_iff.mpr fun e he => ?_
        obtain ⟨a, ha, rfl⟩ := List.mem_map.mp he
        exact hagain a ha
      rw [counted, hempty, List.sum_nil]
  have hvain : ∀ as : List (Answer V), (∀ a ∈ as, accepted py kind (.ingest d rows, a) = none) →
      postsTo py kind d (as.map (Prod.mk (.ingest d rows))) = List.replicate as.length (rows.map Row.bare, false) := by
    intro as has
    induction as with
    | nil => rfl
    | cons a as ih =>
      have hrest := ih fun b hb => has b (List.mem_cons_of_mem _ hb)
      rw [postsTo] at hrest ⊢
      rw [List.map_cons, List.filterMap_cons, has a List.mem_cons_self]
      dsimp only
      rw [if_pos rfl, hrest]
      rfl
  rw [List.map_append, acknowledged_append, counted_append, postsTo_append, hfirst.1, hfirst.2, List.nil_append, zero_add,
    hvain fails hagain]
  rcases hends with ⟨a, counts, h⟩ | ⟨a, cause, h⟩ | ⟨last⟩
  · have haccepted : accepted py kind (.ingest d rows, a) = some counts := (accepted_post a counts).mpr h
    refine ⟨?_, ?_, fails.length, ?_⟩
    · simp [acknowledged, haccepted]
    · simp [counted, haccepted]
    · simp [postsTo, haccepted]
  · have hnone' := hnone a fun counts h' => by
      rw [h] at h'
      cases h'
    refine ⟨?_, ?_, fails.length + 1, ?_⟩
    · simp [acknowledged, hnone']
    · simp [counted, hnone']
    · simp [postsTo, hnone', List.replicate_succ']
  · exact ⟨rfl, rfl, fails.length, rfl⟩

theorem prepare_yields (chunk : List (Row C)) :
    Yields (Puts py d) (fun sent posted => Prepared py kind d sent chunk posted)
      (prepare py answer maxRetries kind d chunk) := by
  rcases kind with - | -
  · exact uploadAttachmentPayloads_yields answer maxRetries chunk
  · exact fun log => ⟨[], (List.append_nil log).symm, puts_nil, rfl⟩

theorem prepared_mono {chunk posted : List (Row C)} (hsub : l ⊆ l') (h : Prepared py kind d l chunk posted) :
    Prepared py kind d l' chunk posted := by
  rcases kind with - | -
  · exact List.Forall₂.imp (fun _ _ => stored_mono hsub) h
  · exact h

theorem bare_forall₂ {chunk posted : List (Row C)} (h : List.Forall₂ (Stored py d l) chunk posted) :
    posted.map Row.bare = chunk.map Row.bare := by
  induction h with
  | nil => rfl
  | cons hstored _ ih => rw [List.map_cons, List.map_cons, bare_stored hstored, ih]

/-- A chunk as it is posted has the rows of the chunk, apart from the attachments. -/
theorem bare_prepared {chunk posted : List (Row C)} (h : Prepared py kind d l chunk posted) :
    posted.map Row.bare = chunk.map Row.bare := by
  rcases kind with - | -
  · exact bare_forall₂ h
  · exact congrArg (List.map Row.bare) h

/-- What was added before a chunk was given up. -/
theorem part_of_puts {chunk : List (Row C)} (hchunk : chunk ≠ []) {s s' : State C V} {flow : Flow}
    {added : List (Sent C V)} (hputs : Puts py d false added) (hflow : flow ≠ .next) (hlog : s'.log = s.log ++ added)
    (htotals : s'.totals = s.totals)
    (hfailures : ∃ more, s'.failures = s.failures ++ more ∧ (more = [] ↔ flow ≠ .leave)) :
    Part py kind d chunk maxRetries s s' flow added := by
  obtain ⟨hacked, hcounted, hposts, hpostsTo, hhere, hbacked⟩ := @puts_facts _ _ _ kind _ _ _ hputs
  refine ⟨hlog, hhere, ?_, hbacked _, ?_, ?_, ?_, ?_, hfailures, chunk.map Row.bare, ?_, fun h => absurd h hflow⟩
  · rw [decide_eq_false hflow]
    exact hputs.2
  · rw [hcounted, add_zero, htotals]
  · rw [hacked]
    exact List.nil_prefix
  · rw [hacked]
    exact iff_of_false hflow fun h => hchunk (List.map_eq_nil_iff.mp h.symm)
  · rw [hposts]
    exact Nat.zero_le _
  · rw [hpostsTo]
    exact .nil _

theorem uploadChunk_part {chunk : List (Row C)} (hchunk : chunk ≠ []) (s : State C V) : ∃ added,
    Part py kind d chunk maxRetries s (uploadChunk py answer maxRetries kind d chunk s).1
      (uploadChunk py answer maxRetries kind d chunk s).2 added := by
  have hprepare := @prepare_yields _ _ py kind d answer maxRetries chunk
  rw [uploadChunk]
  split
  · rename_i log heq
    obtain ⟨added, rfl, hputs⟩ := hprepare.error heq
    exact ⟨added, part_of_puts _ hchunk hputs (by simp) rfl rfl ⟨[], (List.append_nil _).symm, by simp⟩⟩
  · rename_i failure log heq
    obtain ⟨added, rfl, hputs⟩ := hprepare.error heq
    exact ⟨added, part_of_puts _ hchunk hputs (by simp) rfl rfl ⟨[failure], rfl, by simp⟩⟩
  · rename_i posted log heq
    obtain ⟨added, rfl, hputs, hposted⟩ := hprepare.ok heq
    obtain ⟨hacked, hcounted, hposts, hpostsTo, hhere, hbacked⟩ := @puts_facts _ _ _ kind _ _ _ hputs
    have hspec := attempts_spec answer (judgeIngest py kind posted.length) (Request.ingest d posted) maxRetries none
      (s.log ++ added)
    generalize attempts answer (judgeIngest py kind posted.length) _ maxRetries none _ = outcome at *
    obtain ⟨fails, final, hlog, hfails, hlength, hends⟩ := hspec
    obtain ⟨result, log'⟩ := outcome
    dsimp only at hlog hends
    subst hlog
    obtain ⟨htries, hcounts, n, hposted'⟩ := @tries_facts _ _ _ _ d posted _ _ _ hfails hends
    have hquiet := quiet_tries (Request.ingest d posted) (fun a => not_exhausted_post) hfails hends
    set tries := (fails ++ final).map (Prod.mk (Request.ingest d posted)) with htriesdef
    have hmem : ∀ e ∈ tries, e.1 = .ingest d posted := by
      rintro e he
      obtain ⟨a, -, rfl⟩ := List.mem_map.mp he
      rfl
    have hbare := bare_prepared hposted
    have hpart : ∀ (flow : Flow) (s' : State C V), s'.log = s.log ++ added ++ tries →
        s'.totals = s.totals + counted py kind tries → (flow = .next ↔ result.isOk) →
        (∃ more, s'.failures = s.failures ++ more ∧ (more = [] ↔ flow ≠ .leave)) →
        Part py kind d chunk maxRetries s s' flow (added ++ tries) := by
      rintro flow s' hlog htotals hflow hfailures
      refine ⟨by rw [hlog, List.append_assoc], ?_, ?_, ?_, ?_, ?_, ?_, ?_, hfailures, ?_⟩
      · rintro e he
        rcases List.mem_append.mp he with he | he
        · exact hhere e he
        · rw [hmem e he]
          rfl
      · refine quiet_append hputs.2 ?_
        have hdone : decide (flow = .next) = result.isOk := Bool.eq_iff_iff.mpr (decide_eq_true_iff.trans hflow)
        rwa [hdone]
      · refine told_append (hbacked _) fun l₁ e l₂ he => ?_
        rw [Backed, hmem e (he ▸ List.mem_append_right _ List.mem_cons_self)]
        exact ⟨chunk, List.Subset.refl _, prepared_mono (List.subset_append_left _ _) hposted⟩
      · rw [counted_append, hcounted, zero_add, htotals]
      · rw [acknowledged_append, hacked, List.nil_append, htries]
        split
        · rw [hbare]
        · exact List.nil_prefix
      · rw [acknowledged_append, hacked, List.nil_append, htries, hflow]
        rcases result with cause | counts
        · exact iff_of_false Bool.false_ne_true fun h => hchunk (List.map_eq_nil_iff.mp h.symm)
        · exact iff_of_true rfl hbare
      · rw [posts_append, hposts, Nat.zero_add]
        refine le_trans List.countP_le_length ?_
        rw [List.length_map]
        exact hlength
      · rw [postsTo_append, hpostsTo, List.nil_append, hposted', hbare]
        rcases result with cause | counts
        · exact ⟨_, .replicate List.prefix_rfl (.nil _) n, fun h => nomatch hflow.mp h⟩
        · have hnext : Resend.Resent (chunk.map Row.bare) [(chunk.map Row.bare, true)] [] := by
            have h : Resend.Resent (chunk.map Row.bare ++ []) [(chunk.map Row.bare, true)] [] := .next (.nil _)
            rwa [List.append_nil] at h
          exact ⟨[], hnext.replicate List.prefix_rfl n, fun _ => rfl⟩
    rcases result with cause | counts
    · refine ⟨_, hpart .leave _ rfl ?_ (iff_of_false (by simp) Bool.false_ne_true) ⟨[_], rfl, by simp⟩⟩
      rw [hcounts, add_zero]
    · refine ⟨_, hpart .next _ rfl ?_ (iff_of_true rfl rfl) ⟨[], (List.append_nil _).symm, by simp⟩⟩
      rw [hcounts]

/-! ### Destinations -/

theorem backed_mono {rows rows' : WorkerDestination → List (Row C)} {e : Sent C V}
    (hsub : rows e.1.destination ⊆ rows' e.1.destination) (hmem : l ⊆ l') (h : Backed py kind rows l e) :
    Backed py kind rows' l' e := by
  unfold Backed at h ⊢
  split at h
  · rename_i d posted heq
    rw [heq] at hsub
    obtain ⟨chunk, hchunk, hprepared⟩ := h
    exact ⟨chunk, fun r hr => hsub (hchunk hr), prepared_mono hmem hprepared⟩
  · trivial

section Parts

variable {rows more : List (Row C)} {tries tries' : ℕ} {s s₁ s₂ : State C V} {flow : Flow}
  {added added' : List (Sent C V)}

/-- Rows that follow a chunk that was given up are not uploaded. -/
theorem Part.given_up (h : Part py kind d rows tries s s₁ flow added) (hflow : flow ≠ .next) (more : List (Row C))
    (tries' : ℕ) : Part py kind d (rows ++ more) (tries + tries') s s₁ flow added := by
  have hshort : (acknowledged py kind d added).map Row.bare ≠ (rows ++ more).map Row.bare := by
    intro heq
    have hprefix := h.acked
    rw [heq, List.map_append] at hprefix
    have hlength := hprefix.length_le
    rw [List.length_append] at hlength
    have hmore : more.map Row.bare = [] := List.eq_nil_of_length_eq_zero (by omega)
    rw [List.map_append, hmore, List.append_nil] at heq
    exact hflow (h.all.mpr heq)
  obtain ⟨left, hresent, -⟩ := h.resent
  refine ⟨h.log, h.here, h.quiet, ?_, h.totals, ?_, iff_of_false hflow hshort, ?_, h.failures, left ++ more.map Row.bare, ?_,
    fun h => absurd h hflow⟩
  · exact told_imp h.backed fun _ _ => backed_mono (List.subset_append_left _ _) (List.Subset.refl _)
  · rw [List.map_append]
    exact h.acked.trans (List.prefix_append _ _)
  · exact h.bound.trans (Nat.le_add_right _ _)
  · rw [List.map_append]
    exact hresent.extend _

theorem Part.append (h : Part py kind d rows tries s s₁ .next added) (h' : Part py kind d more tries' s₁ s₂ flow added') :
    Part py kind d (rows ++ more) (tries + tries') s s₂ flow (added ++ added') := by
  have hall := h.all.mp rfl
  obtain ⟨left, hresent, hnone⟩ := h.resent
  obtain ⟨left', hresent', hnone'⟩ := h'.resent
  obtain rfl := hnone rfl
  refine ⟨by rw [h'.log, h.log, List.append_assoc], ?_, quiet_append h.quiet h'.quiet, ?_, ?_, ?_, ?_, ?_, ?_, left', ?_,
    hnone'⟩
  · exact fun e he => (List.mem_append.mp he).elim (h.here e) (h'.here e)
  · refine told_append ?_ fun l₁ e l₂ heq => ?_
    · exact told_imp h.backed fun _ _ => backed_mono (List.subset_append_left _ _) (List.Subset.refl _)
    · exact backed_mono (List.subset_append_right _ _) (List.subset_append_right _ _) (h'.backed l₁ e l₂ heq)
  · rw [h'.totals, h.totals, counted_append, add_assoc]
  · rw [acknowledged_append, List.map_append, List.map_append, hall]
    exact (List.prefix_append_right_inj _).mpr h'.acked
  · rw [acknowledged_append, List.map_append, List.map_append, hall, List.append_cancel_left_eq]
    exact h'.all
  · rw [posts_append]
    exact Nat.add_le_add h.bound h'.bound
  · obtain ⟨m, hm, hnone⟩ := h.failures
    obtain ⟨m', hm', hnone'⟩ := h'.failures
    have hempty : m = [] := hnone.mpr (by decide)
    exact ⟨m', by rw [hm', hm, hempty, List.append_nil], hnone'⟩
  · rw [postsTo_append, List.map_append]
    exact (hresent.extend (more.map Row.bare)).trans hresent'

end Parts

theorem uploadChunks_part : ∀ {chunks : List (List (Row C))} (_ : ∀ chunk ∈ chunks, chunk ≠ []) (s : State C V),
    ∃ flow added, Part py kind d chunks.flatten (chunks.length * maxRetries) s
      (uploadChunks py answer maxRetries kind d chunks s).1 flow added ∧
      ((uploadChunks py answer maxRetries kind d chunks s).2 = true ↔ flow = .raised)
  | [], _, s => by
    refine ⟨.next, [], ⟨(List.append_nil _).symm, fun _ h => (nomatch h), quiet_nil, ?_, (add_zero _).symm,
      List.prefix_rfl, iff_of_true rfl rfl, Nat.zero_le _, ⟨[], (List.append_nil _).symm, by decide⟩, [], .nil _,
      fun _ => rfl⟩, iff_of_false Bool.false_ne_true (by decide)⟩
    rintro l₁ e l₂ heq
    exact absurd heq.symm (List.append_ne_nil_of_right_ne_nil _ (List.cons_ne_nil _ _))
  | chunk :: chunks, hchunks, s => by
    obtain ⟨added, hpart⟩ := @uploadChunk_part _ _ py kind d answer maxRetries _
      (hchunks chunk List.mem_cons_self) s
    have hcount : (chunk :: chunks).length * maxRetries = maxRetries + chunks.length * maxRetries := by
      rw [List.length_cons, Nat.succ_mul, Nat.add_comm]
    rw [uploadChunks, hcount, List.flatten_cons]
    generalize uploadChunk py answer maxRetries kind d chunk s = result at *
    obtain ⟨s₁, flow⟩ := result
    rcases flow with - | - | -
    · obtain ⟨flow, added', hpart', hraised⟩ := uploadChunks_part (fun c hc => hchunks c (List.mem_cons_of_mem _ hc)) s₁
      exact ⟨flow, added ++ added', hpart.append hpart', hraised⟩
    · exact ⟨.leave, added, hpart.given_up (by simp) _ _, by simp⟩
    · exact ⟨.raised, added, hpart.given_up (by simp) _ _, by simp⟩

/-! ### All destinations -/

/-- What the uploads to the destinations of the groups do. -/
structure Whole (py : Python V) (kind : Kind) (maxRetries chunkSize : ℕ) (groups : List (WorkerDestination × List (Row C)))
    (s s' : State C V) (raised : Bool) (added : List (Sent C V)) : Prop where
  log : s'.log = s.log ++ added
  here : ∀ e ∈ added, e.1.destination ∈ groups.map Prod.fst
  quiet : added.Pairwise fun q e => Exhausted py q.2 → q.1.destination ≠ e.1.destination
  backed : Told (Backed py kind fun d => Grouping.under d groups) added
  totals : s'.totals = s.totals + counted py kind added
  acked : ∀ d, (acknowledged py kind d added).map Row.bare <+: (Grouping.under d groups).map Row.bare
  all : raised = false ∧ s'.failures = s.failures ↔
    ∀ d, (acknowledged py kind d added).map Row.bare = (Grouping.under d groups).map Row.bare
  bound : ∀ d, posts d added ≤ (Chunks.chunks chunkSize (Grouping.under d groups)).length * maxRetries
  failures : s.failures <+: s'.failures
  resent : ∀ d, ∃ left, Resend.Resent ((Grouping.under d groups).map Row.bare) (postsTo py kind d added) left

theorem under_absent {d : WorkerDestination} {groups : List (WorkerDestination × List (Row C))}
    (h : d ∉ groups.map Prod.fst) : Grouping.under d groups = [] := by
  refine List.flatMap_eq_nil_iff.mpr fun g hg => if_neg ?_
  rintro rfl
  exact h (List.mem_map_of_mem hg)

section Groups

variable {batch : List (Row C)} {groups : List (WorkerDestination × List (Row C))} {chunkSize : ℕ} {s s₁ s₂ : State C V}
  {flow : Flow} {raised : Bool} {added added' : List (Sent C V)}

theorem under_first (hd : d ∉ groups.map Prod.fst) : Grouping.under d ((d, batch) :: groups) = batch := by
  have hrest := under_absent hd
  rw [Grouping.under] at hrest ⊢
  rw [List.flatMap_cons, if_pos rfl, hrest, List.append_nil]

theorem under_rest {d' : WorkerDestination} (hd : d' ≠ d) :
    Grouping.under d' ((d, batch) :: groups) = Grouping.under d' groups := by
  rw [Grouping.under, Grouping.under, List.flatMap_cons, if_neg (Ne.symm hd), List.nil_append]

theorem Part.elsewhere {tries : ℕ} (h : Part py kind d batch tries s s₁ flow added) {d' : WorkerDestination} (hd : d' ≠ d) :
    acknowledged py kind d' added = [] ∧ posts d' added = 0 ∧ postsTo py kind d' added = [] :=
  Upload.elsewhere fun e he => (h.here e he).symm ▸ hd.symm

theorem Part.told {tries : ℕ} (h : Part py kind d batch tries s s₁ flow added) (hd : d ∉ groups.map Prod.fst) :
    Told (Backed py kind fun d' => Grouping.under d' ((d, batch) :: groups)) added := by
  intro l₁ e l₂ heq
  have hdest := h.here e (heq ▸ List.mem_append_right _ List.mem_cons_self)
  refine backed_mono (l := l₁) ?_ (List.Subset.refl _) (h.backed l₁ e l₂ heq)
  rw [hdest, under_first hd]
  exact List.Subset.refl _

theorem Part.calm {tries : ℕ} (h : Part py kind d batch tries s s₁ flow added) :
    added.Pairwise fun q e => Exhausted py q.2 → q.1.destination ≠ e.1.destination :=
  h.quiet.2.imp fun hq hexhausted => absurd hexhausted hq

/-- An upload that ends with a `ValueError` at the first destination. -/
theorem Part.whole_raised (h : Part py kind d batch ((Chunks.chunks chunkSize batch).length * maxRetries) s s₁ .raised added)
    (hd : d ∉ groups.map Prod.fst) : Whole py kind maxRetries chunkSize ((d, batch) :: groups) s s₁ true added := by
  refine ⟨h.log, fun e he => ?_, h.calm, h.told hd, h.totals, fun d' => ?_, ?_, fun d' => ?_, ?_, fun d' => ?_⟩
  · rw [h.here e he]
    exact List.mem_cons_self
  · by_cases hd' : d' = d
    · rw [hd', under_first hd]
      exact h.acked
    · rw [(h.elsewhere hd').1]
      exact List.nil_prefix
  · refine iff_of_false (fun h => nomatch h.1) fun hall => ?_
    have hfirst := hall d
    rw [under_first hd] at hfirst
    exact absurd (h.all.mpr hfirst) (by decide)
  · by_cases hd' : d' = d
    · rw [hd', under_first hd]
      exact h.bound
    · rw [(h.elsewhere hd').2.1]
      exact Nat.zero_le _
  · obtain ⟨more, hmore, -⟩ := h.failures
    exact ⟨more, hmore.symm⟩
  · by_cases hd' : d' = d
    · obtain ⟨left, hresent, -⟩ := h.resent
      rw [hd', under_first hd]
      exact ⟨left, hresent⟩
    · rw [(h.elsewhere hd').2.2]
      exact ⟨_, .nil _⟩

/-- An upload that goes on after the first destination. -/
theorem Part.whole_cons (h : Part py kind d batch ((Chunks.chunks chunkSize batch).length * maxRetries) s s₁ flow added)
    (hflow : flow ≠ .raised) (hd : d ∉ groups.map Prod.fst)
    (h' : Whole py kind maxRetries chunkSize groups s₁ s₂ raised added') :
    Whole py kind maxRetries chunkSize ((d, batch) :: groups) s s₂ raised (added ++ added') := by
  have hnone : acknowledged py kind d added' = [] ∧ posts d added' = 0 ∧ postsTo py kind d added' = [] :=
    Upload.elsewhere fun e he hdest => hd (hdest ▸ h'.here e he)
  obtain ⟨more, hmore, hempty⟩ := h.failures
  obtain ⟨more', hmore'⟩ := h'.failures
  refine ⟨by rw [h'.log, h.log, List.append_assoc], fun e he => ?_, ?_, ?_, ?_, fun d' => ?_, ?_, fun d' => ?_, ?_,
    fun d' => ?_⟩
  · rcases List.mem_append.mp he with he | he
    · rw [h.here e he]
      exact List.mem_cons_self
    · exact List.mem_cons_of_mem _ (h'.here e he)
  · refine List.pairwise_append.mpr ⟨h.calm, h'.quiet, fun q hq e he _ hdest => ?_⟩
    have hmem := h'.here e he
    rw [← hdest, h.here q hq] at hmem
    exact hd hmem
  · refine told_append (h.told hd) fun l₁ e l₂ heq => ?_
    have hmem := h'.here e (heq ▸ List.mem_append_right _ List.mem_cons_self)
    refine backed_mono ?_ (List.subset_append_right _ _) (h'.backed l₁ e l₂ heq)
    have hne : e.1.destination ≠ d := by
      rintro hdest
      rw [hdest] at hmem
      exact hd hmem
    rw [under_rest hne]
    exact List.Subset.refl _
  · rw [h'.totals, h.totals, counted_append, add_assoc]
  · rw [acknowledged_append]
    by_cases hd' : d' = d
    · rw [hd', hnone.1, List.append_nil, under_first hd]
      exact h.acked
    · rw [(h.elsewhere hd').1, List.nil_append, under_rest hd']
      exact h'.acked d'
  · have hfirst : (acknowledged py kind d (added ++ added')).map Row.bare =
        (Grouping.under d ((d, batch) :: groups)).map Row.bare ↔ flow = .next := by
      rw [acknowledged_append, hnone.1, List.append_nil, under_first hd, h.all]
    have hrest : ∀ d', d' ≠ d → ((acknowledged py kind d' (added ++ added')).map Row.bare =
        (Grouping.under d' ((d, batch) :: groups)).map Row.bare ↔
        (acknowledged py kind d' added').map Row.bare = (Grouping.under d' groups).map Row.bare) := by
      intro d' hd'
      rw [acknowledged_append, (h.elsewhere hd').1, List.nil_append, under_rest hd']
    constructor
    · rintro ⟨hraised, hsame⟩ d'
      have hlength := congrArg List.length hsame
      rw [← hmore', hmore, List.length_append, List.length_append] at hlength
      have hm : more = [] := List.eq_nil_of_length_eq_zero (by omega)
      have hm' : more' = [] := List.eq_nil_of_length_eq_zero (by omega)
      by_cases hd' : d' = d
      · rw [hd', hfirst]
        have hleave := hempty.mp hm
        revert hflow hleave
        cases flow <;> simp
      · rw [hrest d' hd']
        refine h'.all.mp ⟨hraised, ?_⟩ d'
        rw [← hmore', hm', List.append_nil]
    · rintro hall
      have hnext := hfirst.mp (hall d)
      have hgroups : ∀ d', (acknowledged py kind d' added').map Row.bare = (Grouping.under d' groups).map Row.bare := by
        intro d'
        by_cases hd' : d' = d
        · rw [hd', hnone.1, under_absent hd]
        · exact (hrest d' hd').mp (hall d')
      obtain ⟨hraised, hsame⟩ := h'.all.mpr hgroups
      refine ⟨hraised, ?_⟩
      rw [hsame, hmore, hempty.mpr (hnext ▸ by decide), List.append_nil]
  · rw [posts_append]
    by_cases hd' : d' = d
    · rw [hd', hnone.2.1, under_first hd]
      exact h.bound
    · rw [(h.elsewhere hd').2.1, Nat.zero_add, under_rest hd']
      exact h'.bound d'
  · exact ⟨more ++ more', by rw [← List.append_assoc, ← hmore, hmore']⟩
  · rw [postsTo_append]
    by_cases hd' : d' = d
    · obtain ⟨left, hresent, -⟩ := h.resent
      rw [hd', hnone.2.2, List.append_nil, under_first hd]
      exact ⟨left, hresent⟩
    · rw [(h.elsewhere hd').2.2, List.nil_append, under_rest hd']
      exact h'.resent d'

theorem uploadGroups_whole (hsize : 1 ≤ chunkSize) :
    ∀ {groups : List (WorkerDestination × List (Row C))} (_ : (groups.map Prod.fst).Nodup) (s : State C V),
    ∃ added, Whole py kind maxRetries chunkSize groups s (uploadGroups py answer maxRetries kind chunkSize groups s).1
      (uploadGroups py answer maxRetries kind chunkSize groups s).2 added
  | [], _, s => by
    refine ⟨[], (List.append_nil _).symm, fun _ h => (nomatch h), .nil, ?_, (add_zero _).symm, fun _ => List.prefix_rfl,
      iff_of_true ⟨rfl, rfl⟩ fun _ => rfl, fun _ => Nat.zero_le _, List.prefix_rfl, fun _ => ⟨_, .nil _⟩⟩
    rintro l₁ e l₂ heq
    exact absurd heq.symm (List.append_ne_nil_of_right_ne_nil _ (List.cons_ne_nil _ _))
  | (d, batch) :: groups, hnodup, s => by
    obtain ⟨hd, hnodup⟩ := List.nodup_cons.mp hnodup
    have hchunks := fun c (hc : c ∈ Chunks.chunks chunkSize batch) => Chunks.ne_nil_of_mem_chunks hsize hc
    obtain ⟨flow, added, hpart, hraised⟩ := @uploadChunks_part _ _ py kind d answer maxRetries _ hchunks s
    rw [Chunks.flatten_chunks hsize] at hpart
    rw [uploadGroups]
    generalize uploadChunks py answer maxRetries kind d (Chunks.chunks chunkSize batch) s = result at *
    obtain ⟨s₁, raised⟩ := result
    rcases raised with - | -
    · have hflow : flow ≠ .raised := fun h => nomatch hraised.mpr h
      obtain ⟨added', hwhole⟩ := uploadGroups_whole hsize hnodup s₁
      exact ⟨added ++ added', hpart.whole_cons _ hflow hd hwhole⟩
    · exact ⟨added, (hraised.mp rfl ▸ hpart).whole_raised _ hd⟩

end Groups

end Tries

/-! ### Uploads -/

section Uploads

variable {V C : Type} (py : Python V) (answer : ℕ → Answer V) (maxRetries : ℕ) (kind : Kind) (config : Config)
  (chunkSize : ℕ) (rows : List (Row C))

/-- The rows for a destination, without their attachments. -/
def rowsFor (d : WorkerDestination) : List (Row C) := rows.filter (destinationOf config · = d)

/-- What an upload has sent, and how it ended. -/
structure Delivered (sent : List (Sent C V)) (outcome : Outcome) : Prop where
  /-- Rows are posted to their own destination, with all attachments put there before. -/
  backed : Told (Backed py kind (rowsFor config rows)) sent
  /-- A beginning of the rows of each destination is acknowledged, each row once. -/
  in_order : ∀ d, (acknowledged py kind d sent).map Row.bare <+: (rowsFor config rows d).map Row.bare
  /-- The upload returns exactly if every destination has acknowledged its rows. -/
  complete : (∃ totals, outcome = .totals totals) ↔
    ∀ d, (acknowledged py kind d sent).map Row.bare = (rowsFor config rows d).map Row.bare
  /-- A chunk is posted until it is acknowledged, and only then the next one. -/
  resent : ∀ d, ∃ left, Resend.Resent ((rowsFor config rows d).map Row.bare) (postsTo py kind d sent) left
  /-- The totals, returned or raised, add up what was acknowledged. -/
  totals : ∀ totals, (outcome = .totals totals ∨ ∃ failures, outcome = .batchError failures totals) →
    totals = counted py kind sent
  /-- No chunk is posted more often than `maxRetries` times. -/
  bounded : ∀ d, posts d sent ≤ (Chunks.chunks chunkSize (rowsFor config rows d)).length * maxRetries
  /-- After a quota reply nothing more is sent to its destination. -/
  paused : sent.Pairwise fun q e => Exhausted py q.2 → q.1.destination ≠ e.1.destination

/-- How an upload ends. -/
def outcomeOf (s : State C V) (raised : Bool) : Outcome :=
  if raised then .valueError else if s.failures = [] then .totals s.totals else .batchError s.failures s.totals

theorem outcomeOf_totals (s : State C V) (raised : Bool) :
    (∃ totals, outcomeOf s raised = .totals totals) ↔ raised = false ∧ s.failures = [] := by
  unfold outcomeOf
  split
  · rename_i h
    refine iff_of_false ?_ fun h' => ?_
    · rintro ⟨totals, h⟩
      cases h
    · rw [h'.1] at h
      cases h
  · rename_i h
    rw [Bool.not_eq_true] at h
    split
    · rename_i hnone
      exact iff_of_true ⟨_, rfl⟩ ⟨h, hnone⟩
    · rename_i hsome
      refine iff_of_false ?_ fun h' => hsome h'.2
      rintro ⟨totals, h⟩
      cases h

variable {maxRetries chunkSize} in
theorem upload_whole (hretries : 1 ≤ maxRetries) (hsize : 1 ≤ chunkSize) (log : Log (Request C) (Answer V)) :
    ∃ sent s raised, upload py answer maxRetries kind config chunkSize rows log = (outcomeOf s raised, log ++ sent) ∧
      Whole py kind maxRetries chunkSize (Grouping.group (destinationOf config) rows) ⟨log, 0, []⟩ s raised sent := by
  have hnodup := Grouping.nodup_keys_group (destinationOf config) rows
  have hvalid : ¬(maxRetries < 1 ∨ chunkSize < 1) := by omega
  obtain ⟨sent, hwhole⟩ := @uploadGroups_whole _ _ py kind answer maxRetries chunkSize hsize _ hnodup ⟨log, 0, []⟩
  rw [upload, if_neg hvalid]
  generalize uploadGroups py answer maxRetries kind chunkSize _ _ = result at *
  obtain ⟨s, raised⟩ := result
  refine ⟨sent, s, raised, ?_, hwhole⟩
  rw [← hwhole.log]
  cases raised <;> rfl

theorem under_group (d : WorkerDestination) :
    Grouping.under d (Grouping.group (destinationOf config) rows) = rowsFor config rows d :=
  (Grouping.group_facts (destinationOf config) rows).2 d

variable {maxRetries chunkSize}

end Uploads

/-! ### A retry -/

def pythonDemo : Python ℤ := ⟨some, fun _ => none, fun _ => none⟩

def shardDemo : ShardConfig := ⟨"s1", "https://s1.example", "11111111111111111111111111111111", ["a"]⟩

def configDemo : Config :=
  ⟨primaryDestination "https://w.example" "tok", [primaryDestination "https://w.example" "tok", shardDemo.destination],
    [("a", shardDemo.destination)]⟩

/-- The first try is lost, all others are answered. -/
def answerDemo (n : ℕ) : Answer ℤ :=
  ⟨if n = 0 then .raised else .answered 200 (.dict fun key => if key = "inserted" then some 1 else none), 0⟩

def rowDemo : Row Unit := ⟨some "imap_qq", some "a", some "mail", (), none, none, none⟩

end OneMail.Upload
