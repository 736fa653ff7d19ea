import OneMail.Mutation.Ingest
import OneMail.Upload.Delivery

/-! An upload at the store of its destination.

    A post whose answer was lost may have been taken in, as a whole, up to some row or not at all, and it is
    sent again. What the unique indexes of `emails` see of the table afterwards is what one pass over a
    beginning of the rows leaves, and over all of them once the upload has returned. -/

namespace OneMail.Upload
open Mutation Retry Table

/-! ### What the unique indexes see -/

structure Keys where
  id : JsString
  accountId : Option JsString
  provider : Option JsString
  providerMessageId : Option JsString
  sourceKey : Option JsString
  imapUid : Option JsString
  deriving DecidableEq

def keysOf (row : EmailRow) : Keys :=
  ⟨row.id, row.accountId, row.provider, row.providerMessageId, row.sourceKey, row.imapUid⟩

def Keys.conflicts (k k' : Keys) : Bool :=
  k.id = k'.id || sameKey k.imapUid k'.imapUid || sameKey k.sourceKey k'.sourceKey ||
    sameKey k.accountId k'.accountId && sameKey k.provider k'.provider && sameKey k.providerMessageId k'.providerMessageId

theorem conflicts_keysOf (row row' : EmailRow) : (keysOf row).conflicts (keysOf row') = row.conflicts row' := rfl

theorem keysOf_sameKeys {row row' : EmailRow} (h : row.SameKeys row') : keysOf row' = keysOf row := by
  rw [keysOf, keysOf, h.id, h.accountId, h.provider, h.providerMessageId, h.sourceKey, h.imapUid]

theorem keysOf_insertBatch (rows emails : List EmailRow) : (insertBatch emails rows).emails.map keysOf =
    (rows.map keysOf).foldl (insertOrIgnore Keys.conflicts) (emails.map keysOf) := by
  induction rows generalizing emails with
  | nil => rfl
  | cons row rows ih =>
    have hstep : (insertOrIgnore EmailRow.conflicts emails row).map keysOf =
        insertOrIgnore Keys.conflicts (emails.map keysOf) (keysOf row) := by
      have hany : (emails.map keysOf).any (keysOf row).conflicts = emails.any row.conflicts := by
        rw [List.any_map]
        rfl
      rw [insertOrIgnore, insertOrIgnore, hany]
      split
      · rfl
      · rw [List.map_append, List.map_singleton]
    rw [insertBatch, List.map_cons, List.foldl_cons, ← hstep, ← ih]
    split <;> rfl

/-! ### Requests at the store -/

section Store

variable (deleting : JsString → Bool)

/-- The keys that a row is inserted with; none if its account is being deleted, or it is refused. -/
def uploadKeys (e : Mutation.Upload) : Option Keys :=
  if deleting (e.accountId.getD []) then none
  else (toEmailInsertParams e ((nullableText e.id).getD []) 0).toOption.map keysOf

def insertKeys (keys : List Keys) (row : Row Mutation.Upload) : List Keys :=
  match uploadKeys deleting row.columns with
  | none => keys
  | some k => insertOrIgnore Keys.conflicts keys k

/-- Uploads taken in by the worker: the batch of INSERTs, and the refresh of some of the replayed rows. -/
def Ingested (uploads : List Mutation.Upload) (emails emails' : List EmailRow) : Prop :=
  ∃ uuids nowMs differs replayed, uploads.length ≤ uuids.length ∧
    replayed <+: (insertBatch emails (insertRows deleting uuids nowMs uploads)).replayed ∧
    emails' = refreshBatch differs nowMs replayed (insertBatch emails (insertRows deleting uuids nowMs uploads)).emails

variable {V : Type} (py : Python V) (d : WorkerDestination)

/-- What the requests make of the table of the destination. A post that it acknowledged it has taken in. -/
inductive Received : List (Sent Mutation.Upload V) → List EmailRow → List EmailRow → Prop
  | nil (emails : List EmailRow) : Received [] emails emails
  | other {e : Sent Mutation.Upload V} {sent : List (Sent Mutation.Upload V)} {emails emails' : List EmailRow} :
      isPost d e = false → Received sent emails emails' → Received (e :: sent) emails emails'
  | post {posted : List (Row Mutation.Upload)} {a : Answer V} {sent : List (Sent Mutation.Upload V)}
      {emails middle emails' : List EmailRow} (k : ℕ) :
      ((accepted py .emails (.ingest d posted, a)).isSome → posted.length ≤ k) →
      Ingested deleting ((posted.take k).map (·.columns)) emails middle → Received sent middle emails' →
      Received ((.ingest d posted, a) :: sent) emails emails'

end Store

/-! ### Inserting again -/

section Again

variable {deleting : JsString → Bool}

theorem keys_conflicts_self (k : Keys) : k.conflicts k = true := by
  simp [Keys.conflicts]

/-- A row that is in the table, or kept out of it, stays so, and inserting it again changes nothing. -/
theorem insertKeys_idempotent : Resend.Idempotent (insertKeys deleting) fun keys row =>
    ∀ k, uploadKeys deleting row.columns = some k → keys.any k.conflicts = true where
  same := by
    intro keys row h
    rw [insertKeys]
    split
    · rfl
    · rename_i k hk
      exact if_pos (h k hk)
  here := by
    intro keys row k hk
    rw [insertKeys, hk]
    dsimp only
    rw [insertOrIgnore]
    split
    · assumption
    · rw [List.any_append, List.any_cons, keys_conflicts_self, Bool.true_or, Bool.or_true]
  kept := by
    intro keys row row' h k hk
    obtain ⟨k', hk', hconflict⟩ := List.any_eq_true.mp (h k hk)
    refine List.any_eq_true.mpr ⟨k', ?_, hconflict⟩
    rw [insertKeys]
    split
    · exact hk'
    · exact subset_insertOrIgnore hk'

variable {uploads : List Mutation.Upload}

/-- The keys do not depend on when a row is inserted. -/
theorem keysOf_insertRows (hids : ∀ e ∈ uploads, (nullableText e.id).isSome = true) (nowMs : ℕ) :
    ∀ uuids : List JsString, uploads.length ≤ uuids.length →
    (insertRows deleting uuids nowMs uploads).map keysOf = uploads.filterMap (uploadKeys deleting) := by
  induction uploads with
  | nil => exact fun _ _ => rfl
  | cons e uploads ih =>
    intro uuids hlength
    have ih := ih fun e' he => hids e' (List.mem_cons_of_mem _ he)
    rw [List.length_cons] at hlength
    by_cases hdeleting : deleting (e.accountId.getD []) = true
    · rw [List.filterMap_cons, uploadKeys, if_pos hdeleting]
      rw [insertRows, List.filter_cons_of_neg (by simp [hdeleting])]
      exact ih uuids (by omega)
    · rcases uuids with - | ⟨uuid, uuids⟩
      · rw [List.length_nil] at hlength
        omega
      · obtain ⟨id, hid⟩ := Option.isSome_iff_exists.mp (hids e List.mem_cons_self)
        have hsame : (toEmailInsertParams e id nowMs).toOption.map keysOf =
            (toEmailInsertParams e id 0).toOption.map keysOf := by
          unfold toEmailInsertParams
          split_ifs <;> rfl
        rw [List.length_cons] at hlength
        have hrest := ih uuids (by omega)
        rw [insertRows] at hrest
        rw [List.filterMap_cons, uploadKeys, if_neg hdeleting, insertRows,
          List.filter_cons_of_pos (by simpa using hdeleting), List.zip_cons_cons, List.filterMap_cons, hid,
          Option.getD_some, ← hsame]
        rcases hrow : toEmailInsertParams e id nowMs with message | row
        · simpa [hrow, Except.toOption, hid] using hrest
        · simpa [hrow, Except.toOption, hid] using hrest

theorem ingested_keys (hids : ∀ e ∈ uploads, (nullableText e.id).isSome = true) {emails emails' : List EmailRow}
    (h : Ingested deleting uploads emails emails') :
    emails'.map keysOf = (uploads.filterMap (uploadKeys deleting)).foldl (insertOrIgnore Keys.conflicts) (emails.map keysOf) ∧
      (Unique emails → Unique emails') := by
  obtain ⟨uuids, nowMs, differs, replayed, hlength, -, rfl⟩ := h
  have hsame := refreshBatch_sameKeys differs nowMs replayed (insertBatch emails (insertRows deleting uuids nowMs uploads)).emails
  refine ⟨?_, fun hunique => (insertBatch_unique hunique).moved hsame⟩
  rw [Forall₂.map_eq keysOf (fun _ _ h => keysOf_sameKeys h) hsame, keysOf_insertBatch, keysOf_insertRows hids nowMs uuids hlength]

/-- One row after the other is what a batch of them is. -/
theorem foldl_insertKeys (rows : List (Row Mutation.Upload)) (keys : List Keys) : rows.foldl (insertKeys deleting) keys =
    ((rows.map (·.columns)).filterMap (uploadKeys deleting)).foldl (insertOrIgnore Keys.conflicts) keys := by
  rw [List.filterMap_map, List.foldl_filterMap]
  congr 1
  funext keys row
  rw [insertKeys, Function.comp_apply]
  cases uploadKeys deleting row.columns <;> rfl

variable {V : Type} {py : Python V} {d : WorkerDestination}

/-- The requests as the receiver of resent rows sees them. -/
theorem received_ran {sent : List (Sent Mutation.Upload V)} {emails emails' : List EmailRow}
    (hids : ∀ e ∈ sent, ∀ d' posted, e.1 = .ingest d' posted → ∀ row ∈ posted, (nullableText row.columns.id).isSome = true)
    (h : Received deleting py d sent emails emails') :
    Resend.Ran (insertKeys deleting) (postsTo py .emails d sent) (emails.map keysOf) (emails'.map keysOf) ∧
      (Unique emails → Unique emails') := by
  induction h with
  | nil emails => exact ⟨.nil _, id⟩
  | @other e sent emails emails' he _ ih =>
    have hnone : postsTo py .emails d [e] = [] := by
      rw [postsTo, List.filterMap_cons, List.filterMap_nil]
      unfold isPost at he
      split
      · rfl
      · rename_i heq
        rcases hrequest : e.1 with ⟨d', posted⟩ | ⟨d', put⟩
        · rw [hrequest] at he heq
          have hnone := heq
          dsimp only at hnone
          rw [if_neg (of_decide_eq_false he)] at hnone
          cases hnone
        · rw [hrequest] at heq
          cases heq
    obtain ⟨hran, hunique⟩ := ih fun e' he' => hids e' (List.mem_cons_of_mem _ he')
    refine ⟨?_, hunique⟩
    rw [← List.singleton_append, postsTo_append, hnone]
    exact hran
  | @post posted a sent emails middle emails' k hk hingested _ ih =>
    obtain ⟨hran, hunique⟩ := ih fun e' he' => hids e' (List.mem_cons_of_mem _ he')
    have hcolumns : ∀ e ∈ (posted.take k).map (·.columns), (nullableText e.id).isSome = true := by
      rintro e he
      obtain ⟨row, hrow, rfl⟩ := List.mem_map.mp he
      exact hids _ List.mem_cons_self d posted rfl row (List.mem_of_mem_take hrow)
    obtain ⟨hkeys, hunique'⟩ := ingested_keys hcolumns hingested
    refine ⟨?_, fun h => hunique (hunique' h)⟩
    have hpost : postsTo py .emails d ((.ingest d posted, a) :: sent) =
        (posted.map Row.bare, (accepted py .emails (.ingest d posted, a)).isSome) :: postsTo py .emails d sent := by
      rw [postsTo, List.filterMap_cons]
      dsimp only
      rw [if_pos rfl]
      rfl
    have hbare : ((posted.map Row.bare).take k).map (·.columns) = (posted.take k).map (·.columns) := by
      rw [← List.map_take, List.map_map]
      rfl
    rw [hpost]
    refine .post k (fun hacked => ?_) ?_
    · rw [List.length_map]
      exact hk hacked
    · rw [foldl_insertKeys, hbare, ← hkeys]
      exact hran

end Again

/-! ### Uploads -/

section Uploads

variable {V : Type} (py : Python V) (answer : ℕ → Answer V) {maxRetries chunkSize : ℕ} (config : Config)
  (deleting : JsString → Bool) {rows : List (Row Mutation.Upload)}

end Uploads

/-! ### A retry -/

def uploadDemo : Mutation.Upload where
  id := some (js "mail")
  source := some (js "imap_qq")
  accountId := some (js "a")
  fromAddr := some (js "x@example.org")
  toAddr := some (js "y@example.org")
  receivedAt := none
  internalDate := none
  updatedAt := none
  isRead := none
  isStarred := none
  provider := none
  sourceFolder := none
  sourceFolderId := none
  providerMessageId := none
  sourceKey := some (js "qq:1")
  imapUid := none
  messageIdHeader := none

def storedRowDemo : Row Mutation.Upload := ⟨some "imap_qq", some "a", some "mail", uploadDemo, none, none, none⟩

end OneMail.Upload
