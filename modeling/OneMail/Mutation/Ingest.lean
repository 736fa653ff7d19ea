import Mathlib
import OneMail.Mutation.Statements

/-! The ingest of external mail into `emails` (`core/ingest.ts`, `ingest.ts`).

    `ingestHandler` validates every object of a request, then `insertEmails` leaves out the accounts that are
    being deleted and sends `INSERT OR IGNORE` in batches of a hundred. A row that meets any unique index is a
    replay: it is skipped, and only refreshes the folder columns of the row with its provider identity. -/

namespace OneMail.Mutation
open JsString Table

/-- An object of `emails` in the body of `POST /ingest`, as far as the columns of `EmailRow` need it. -/
structure Upload where
  id : Option JsString
  source : Option JsString
  accountId : Option JsString
  fromAddr : Option JsString
  toAddr : Option JsString
  receivedAt : Option ℤ
  internalDate : Option ℤ
  updatedAt : Option ℕ
  isRead : Option ℕ
  isStarred : Option ℕ
  provider : Option JsString
  sourceFolder : Option JsString
  sourceFolderId : Option JsString
  providerMessageId : Option JsString
  sourceKey : Option JsString
  imapUid : Option JsString
  messageIdHeader : Option JsString
  deriving DecidableEq

def nullableText (value : Option JsString) : Option JsString := orElse value none

/-- `Number.isSafeInteger` of an integer. -/
def isSafeInteger (n : ℤ) : Bool := n.natAbs < 2 ^ 53

def toEmailInsertParams (e : Upload) (id : JsString) (nowMs : ℕ) : Except String EmailRow :=
  if ¬ (truthy e.fromAddr ∧ truthy e.toAddr ∧ truthy e.accountId) then
    .error "from_addr/to_addr/account_id required"
  else if e.id.any fun id => id.isEmpty || 200 < id.length then .error "invalid email id"
  else if e.receivedAt.any fun n => !isSafeInteger n then .error "invalid received_at"
  else if e.internalDate.any fun n => !isSafeInteger n then .error "invalid internal_date"
  else if e.updatedAt.any fun n => !isSafeInteger n then .error "invalid updated_at"
  else if e.isRead.any (1 < ·) then .error "invalid is_read"
  else if e.isStarred.any (1 < ·) then .error "invalid is_starred"
  else if truthy e.providerMessageId ∧ ¬ truthy e.provider then
    .error "provider required when provider_message_id is set"
  else .ok {
    id := id
    source := some (e.source.getD (js "imap_unknown"))
    accountId := e.accountId
    toAddr := e.toAddr
    isRead := some (e.isRead.getD 0)
    isStarred := some (e.isStarred.getD 0)
    provider := nullableText e.provider
    sourceFolder := nullableText e.sourceFolder
    sourceFolderId := nullableText e.sourceFolderId
    providerMessageId := nullableText e.providerMessageId
    sourceKey := nullableText e.sourceKey <|> nullableText e.imapUid
    imapUid := nullableText e.imapUid
    messageIdHeader := nullableText e.messageIdHeader
    updatedAt := some (e.updatedAt.getD nowMs) }

/-- The first error of the validation in `ingestHandler`. -/
def invalidUpload (uploads : List Upload) : Option String :=
  uploads.findSome? fun e =>
    match toEmailInsertParams e (js "validation") 0 with
    | .error message => some message
    | .ok _ => none

def acceptsUploads (uploads : List Upload) : Bool := uploads.length ≤ 200 && (invalidUpload uploads).isNone

/-- The rows that `insertEmails` sends. `deleting` holds of the accounts with a lifecycle row; `uuids` are
    drawn one for each row, and taken where the upload names no id. -/
def insertRows (deleting : JsString → Bool) (uuids : List JsString) (nowMs : ℕ) (uploads : List Upload) :
    List EmailRow :=
  ((uploads.filter fun e => !deleting (e.accountId.getD [])).zip uuids).filterMap fun (e, uuid) =>
    (toEmailInsertParams e ((nullableText e.id).getD uuid) nowMs).toOption

def ingestBatch : ℕ := 100

/-- What a batch of INSERTs leaves: the table, the rows with `changes > 0`, and the replayed ones. -/
structure Inserted where
  emails : List EmailRow
  stored : List EmailRow
  replayed : List EmailRow

def insertBatch (emails : List EmailRow) : List EmailRow → Inserted
  | [] => ⟨emails, [], []⟩
  | row :: rows =>
    let rest := insertBatch (insertOrIgnore EmailRow.conflicts emails row) rows
    if emails.any row.conflicts then { rest with replayed := row :: rest.replayed }
    else { rest with stored := row :: rest.stored }

/-- The WHERE of `buildIdentityRefreshStatements`; `differs` stands for the columns outside `EmailRow`. -/
def refreshes (differs : EmailRow → EmailRow → Bool) (e row : EmailRow) : Bool :=
  sameKey row.accountId e.accountId && sameKey row.provider e.provider &&
    sameKey row.providerMessageId e.providerMessageId &&
    (row.sourceFolder ≠ (e.sourceFolder <|> row.sourceFolder) ||
      row.sourceFolderId ≠ (e.sourceFolderId <|> row.sourceFolderId) ||
      row.messageIdHeader ≠ (e.messageIdHeader <|> row.messageIdHeader) || differs e row)

def EmailRow.refresh (e : EmailRow) (nowMs : ℕ) (row : EmailRow) : EmailRow :=
  { row with
    sourceFolder := e.sourceFolder <|> row.sourceFolder
    sourceFolderId := e.sourceFolderId <|> row.sourceFolderId
    messageIdHeader := e.messageIdHeader <|> row.messageIdHeader
    updatedAt := some nowMs }

/-- A batch of refresh statements. -/
def refreshBatch (differs : EmailRow → EmailRow → Bool) (nowMs : ℕ) :
    List EmailRow → List EmailRow → List EmailRow
  | [], emails => emails
  | e :: rows, emails => refreshBatch differs nowMs rows (updateWhere (refreshes differs e) (e.refresh nowMs) emails)

/-! ### The unique indexes -/

/-- The unique indexes of `emails` hold. -/
def Unique (emails : List EmailRow) : Prop := emails.Pairwise fun a b => a.conflicts b = false

instance (emails : List EmailRow) : Decidable (Unique emails) := by unfold Unique; infer_instance

/-- The columns that the unique indexes read. -/
structure EmailRow.SameKeys (row row' : EmailRow) : Prop where
  id : row'.id = row.id
  accountId : row'.accountId = row.accountId
  provider : row'.provider = row.provider
  providerMessageId : row'.providerMessageId = row.providerMessageId
  sourceKey : row'.sourceKey = row.sourceKey
  imapUid : row'.imapUid = row.imapUid

theorem EmailRow.SameKeys.refl (row : EmailRow) : row.SameKeys row := by constructor <;> rfl

theorem EmailRow.SameKeys.trans {a b c : EmailRow} (h : a.SameKeys b) (h' : b.SameKeys c) : a.SameKeys c :=
  ⟨h'.id.trans h.id, h'.accountId.trans h.accountId, h'.provider.trans h.provider,
    h'.providerMessageId.trans h.providerMessageId, h'.sourceKey.trans h.sourceKey, h'.imapUid.trans h.imapUid⟩

theorem sameKey_comm {α : Type} [DecidableEq α] (a b : Option α) : sameKey a b = sameKey b a := by
  unfold sameKey
  by_cases h : a = b
  · rw [h]
  · simp [h, Ne.symm h]

theorem sameKey_iff {α : Type} [DecidableEq α] {a b : Option α} :
    sameKey a b = true ↔ ∃ x, a = some x ∧ b = some x := by
  cases a <;> simp [sameKey, eq_comm]

theorem conflicts_comm (a b : EmailRow) : a.conflicts b = b.conflicts a := by
  unfold EmailRow.conflicts
  rw [sameKey_comm a.imapUid, sameKey_comm a.sourceKey, sameKey_comm a.accountId, sameKey_comm a.provider,
    sameKey_comm a.providerMessageId, Bool.decide_congr eq_comm]

theorem conflicts_congr {a a' b b' : EmailRow} (ha : a.SameKeys a') (hb : b.SameKeys b') :
    a'.conflicts b' = a.conflicts b := by
  simp only [EmailRow.conflicts, ha.id, ha.accountId, ha.provider, ha.providerMessageId, ha.sourceKey, ha.imapUid,
    hb.id, hb.accountId, hb.provider, hb.providerMessageId, hb.sourceKey, hb.imapUid]

theorem not_conflicts {a b : EmailRow} (h : a.conflicts b = false) :
    a.id ≠ b.id ∧ sameKey a.imapUid b.imapUid = false ∧ sameKey a.sourceKey b.sourceKey = false ∧
      (sameKey a.accountId b.accountId && sameKey a.provider b.provider &&
        sameKey a.providerMessageId b.providerMessageId) = false := by
  simpa [EmailRow.conflicts, Bool.or_eq_false_iff, and_assoc] using h

theorem Unique.ids {emails : List EmailRow} (h : Unique emails) : (emails.map (·.id)).Nodup :=
  List.pairwise_map.mpr (h.imp fun hab => (not_conflicts hab).1)

/-- Any two different rows are apart. -/
theorem Unique.apart {emails : List EmailRow} (h : Unique emails) {a b : EmailRow} (ha : a ∈ emails)
    (hb : b ∈ emails) (hne : a.id ≠ b.id) : a.conflicts b = false := by
  have hsymm : Std.Symm fun x y : EmailRow => x.conflicts y = false := ⟨fun x y hxy => (conflicts_comm y x).trans hxy⟩
  exact List.Pairwise.forall h ha hb fun heq => hne (congrArg _ heq)

theorem Unique.moved {t u : List EmailRow} (hm : List.Forall₂ EmailRow.SameKeys t u) (h : Unique t) : Unique u := by
  induction hm with
  | nil => exact .nil
  | @cons a a' t u hab htail ih =>
    obtain ⟨hhead, hrest⟩ := List.pairwise_cons.mp h
    refine List.pairwise_cons.mpr ⟨fun b' hb' => ?_, ih hrest⟩
    obtain ⟨b, hb, hkeys⟩ := Forall₂.prev htail hb'
    exact (conflicts_congr hab hkeys).trans (hhead b hb)

/-- An update that keeps the keys keeps the indexes. -/
theorem sameKeys_updateWhere {p : EmailRow → Bool} {f : EmailRow → EmailRow}
    (hf : ∀ row : EmailRow, row.SameKeys (f row)) (emails : List EmailRow) : List.Forall₂ EmailRow.SameKeys emails (updateWhere p f emails) :=
  forall₂_updateWhere (fun row _ _ => hf row) fun row _ => EmailRow.SameKeys.refl row

theorem refresh_sameKeys (e : EmailRow) (nowMs : ℕ) (row : EmailRow) : row.SameKeys (e.refresh nowMs row) := by
  constructor <;> rfl

theorem refreshBatch_sameKeys (differs : EmailRow → EmailRow → Bool) (nowMs : ℕ) : ∀ rows emails : List EmailRow,
    List.Forall₂ EmailRow.SameKeys emails (refreshBatch differs nowMs rows emails)
  | [], _ => forall₂_refl_of fun row _ => EmailRow.SameKeys.refl row
  | e :: rows, emails => by
    have hfirst : List.Forall₂ EmailRow.SameKeys emails (updateWhere (refreshes differs e) (e.refresh nowMs) emails) :=
      sameKeys_updateWhere (refresh_sameKeys e nowMs) emails
    exact forall₂_trans (fun _ _ _ h h' => h.trans h') hfirst (refreshBatch_sameKeys differs nowMs rows _)

/-! ### A batch of INSERTs -/

/-- A batch appends the rows it stores. -/
theorem insertBatch_emails : ∀ rows emails : List EmailRow,
    (insertBatch emails rows).emails = emails ++ (insertBatch emails rows).stored
  | [], emails => (List.append_nil emails).symm
  | row :: rows, emails => by
    have ih := insertBatch_emails rows (insertOrIgnore EmailRow.conflicts emails row)
    rw [insertBatch]
    by_cases hconflict : emails.any row.conflicts = true
    · rw [insertOrIgnore, if_pos hconflict] at ih ⊢
      rw [if_pos hconflict]
      exact ih
    · rw [insertOrIgnore, if_neg hconflict] at ih ⊢
      rw [if_neg hconflict]
      exact ih.trans (List.append_assoc ..)

theorem stored_subset : ∀ rows emails : List EmailRow, (insertBatch emails rows).stored ⊆ rows
  | [], _ => List.Subset.refl _
  | row :: rows, emails => by
    have ih := stored_subset rows (insertOrIgnore EmailRow.conflicts emails row)
    rw [insertBatch]
    split
    · exact fun r hr => List.mem_cons_of_mem _ (ih hr)
    · exact List.cons_subset_cons row ih

theorem insertBatch_unique : ∀ {rows emails : List EmailRow}, Unique emails → Unique (insertBatch emails rows).emails
  | [], _, h => h
  | row :: rows, emails, h => by
    have hnext : Unique (insertOrIgnore EmailRow.conflicts emails row) := by
      unfold insertOrIgnore
      split
      · exact h
      · rename_i hconflict
        rw [Bool.not_eq_true, List.any_eq_false] at hconflict
        refine List.pairwise_append.mpr ⟨h, List.pairwise_singleton _ _, fun a ha b hb => ?_⟩
        obtain rfl := List.mem_singleton.mp hb
        exact (conflicts_comm a b).trans (by simpa using hconflict a ha)
    rw [insertBatch]
    split <;> exact insertBatch_unique hnext

/-- A stored row met no index of the rows before it. -/
theorem stored_apart {rows emails : List EmailRow} (h : Unique emails) {row row' : EmailRow}
    (hrow : row ∈ (insertBatch emails rows).stored) (hrow' : row' ∈ emails) : row'.conflicts row = false := by
  have hunique : Unique (insertBatch emails rows).emails := insertBatch_unique h
  rw [insertBatch_emails] at hunique
  exact (List.pairwise_append.mp hunique).2.2 row' hrow' row hrow

/-- Every row sent stands for one of the uploads. -/
theorem mem_insertRows {deleting : JsString → Bool} {uuids : List JsString} {nowMs : ℕ} {uploads : List Upload}
    {row : EmailRow} (h : row ∈ insertRows deleting uuids nowMs uploads) :
    ∃ e ∈ uploads, ∃ id, toEmailInsertParams e id nowMs = .ok row := by
  obtain ⟨⟨e, uuid⟩, hmem, hrow⟩ := List.mem_filterMap.mp h
  refine ⟨e, (List.mem_filter.mp (List.of_mem_zip hmem).1).1, (nullableText e.id).getD uuid, ?_⟩
  cases hparams : toEmailInsertParams e ((nullableText e.id).getD uuid) nowMs with
  | error message => simp [hparams, Except.toOption] at hrow
  | ok row' => simpa [hparams, Except.toOption] using hrow

theorem of_toEmailInsertParams {e : Upload} {id : JsString} {nowMs : ℕ} {row : EmailRow}
    (h : toEmailInsertParams e id nowMs = .ok row) :
    row.accountId = e.accountId ∧ row.imapUid = nullableText e.imapUid ∧
      row.sourceKey = (nullableText e.sourceKey <|> nullableText e.imapUid) := by
  unfold toEmailInsertParams at h
  split_ifs at h
  cases h
  exact ⟨rfl, rfl, rfl⟩

end OneMail.Mutation
