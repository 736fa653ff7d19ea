import OneMail.Accounts.Requests

/-! When the removal of an account is final.

    Ingest looks for a tombstone in one round trip and inserts in another, and the archival insert looks for
    none. As long as no batch inserts mail of an account that is purged, or whose mail has just been deleted
    on the way to its last tombstone, a purged account has no mail in that database again. -/

namespace OneMail.Accounts
open JsString Interleave Table
open Mutation (EmailRow)

variable {s s' : Store} {c c' : Call} {ev : List Event} {w : World Store Call Event}

/-- The mail of an account in a database. -/
def HasMail (s : Store) (place : Place) (accountId : JsString) : Prop :=
  ∃ row ∈ (s.databases place).emails, row.accountId = some accountId

/-- A database has no mail of an account that was purged there. -/
def RemovalFinal (w : World Store Call Event) : Prop :=
  ∀ place accountId, .purged place accountId ∈ w.trace → ¬ HasMail w.store place accountId

/-- The next batch of a request has no mail of an account that is purged in its database, or that a removal
    has deleted there and will purge next. -/
def InsertsLiving (w : World Store Call Event) (i : ℕ) : Prop :=
  ∀ place rows, (w.pc i).batch = some (place, rows) → ∀ row ∈ rows, ∀ accountId, row.accountId = some accountId →
    .purged place accountId ∉ w.trace ∧
      ∀ j r, place = .primary → r.id = accountId → w.pc j ≠ .erased r

theorem modify_self (place : Place) (f : Database → Database) :
    (s.modify place f).databases place = f (s.databases place) := Function.update_self ..

theorem modify_ne {place place' : Place} (h : place' ≠ place) (f : Database → Database) :
    (s.modify place f).databases place' = s.databases place' := Function.update_of_ne h ..

/-- A change of one database that adds no mail adds none anywhere. -/
theorem hasMail_modify {place place' : Place} {accountId : JsString} {f : Database → Database}
    (hf : ∀ db, (f db).emails ⊆ db.emails) (h : HasMail (s.modify place f) place' accountId) :
    HasMail s place' accountId := by
  obtain ⟨row, hrow, haccount⟩ := h
  refine ⟨row, ?_, haccount⟩
  by_cases hplace : place' = place
  · subst hplace
    rw [modify_self] at hrow
    exact hf _ hrow
  · rwa [modify_ne hplace] at hrow

theorem eraseEmails_subset (accountId : JsString) (db : Database) :
    (eraseEmails accountId db).emails ⊆ db.emails := fun _ hrow => (mem_deleteWhere.mp hrow).1

theorem not_mem_eraseEmails {accountId : JsString} {db : Database} {row : EmailRow}
    (h : row ∈ (eraseEmails accountId db).emails) : row.accountId ≠ some accountId := by
  have hkept := (mem_deleteWhere.mp h).2
  simpa using hkept

theorem purgeAccount_subset (accountId : JsString) (now : ℕ) (db : Database) :
    (purgeAccount accountId now db).emails ⊆ db.emails := eraseEmails_subset accountId db

theorem lifecycleUpsert_subset (row : LifecycleRow) (db : Database) :
    (lifecycleUpsert row db).emails ⊆ db.emails := List.Subset.refl _

/-- Mail of an account appears only in a batch that inserts it. -/
theorem step_hasMail (h : AccountStep s c s' c' ev) {place : Place} {accountId : JsString}
    (hmail : HasMail s' place accountId) : HasMail s place accountId ∨
      ∃ rows, c.batch = some (place, rows) ∧ ∃ row ∈ rows, row.accountId = some accountId := by
  cases h with
  | mark => exact .inl (hasMail_modify (lifecycleUpsert_subset _) hmail)
  | tombstone => exact .inl (hasMail_modify (lifecycleUpsert_subset _) hmail)
  | purge => exact .inl (hasMail_modify (purgeAccount_subset _ _) hmail)
  | latePurge => exact .inl (hasMail_modify (purgeAccount_subset _ _) hmail)
  | @erase r =>
    have hmail' : HasMail (s.modify .primary (eraseEmails r.id)) place accountId := hmail
    exact .inl (hasMail_modify (eraseEmails_subset _) hmail')
  | @insertRows place' rows _ =>
    obtain ⟨row, hrow, haccount⟩ := hmail
    by_cases hplace : place = place'
    · subst hplace
      rw [modify_self] at hrow
      rcases mem_insertAll hrow with hold | hnew
      · exact .inl ⟨row, hold, haccount⟩
      · exact .inr ⟨_, rfl, row, hnew, haccount⟩
    · rw [modify_ne hplace] at hrow
      exact .inl ⟨row, hrow, haccount⟩
  | _ => exact .inl hmail

/-- The step that purges an account leaves none of its mail, if the batch before it left none. -/
theorem step_purged (h : AccountStep s c s' c' ev) {place : Place} {accountId : JsString}
    (hev : .purged place accountId ∈ ev)
    (herased : ∀ r, c = .erased r → ¬ HasMail s .primary r.id) : ¬ HasMail s' place accountId := by
  cases h with
  | report => simp at hev
  | purge | latePurge =>
    obtain ⟨rfl, rfl⟩ : place = _ ∧ accountId = _ := by simpa using hev
    rintro ⟨row, hrow, haccount⟩
    rw [modify_self] at hrow
    exact not_mem_eraseEmails hrow haccount
  | @tombstone r =>
    obtain ⟨rfl, rfl⟩ : place = _ ∧ accountId = _ := by simpa using hev
    exact fun hmail => herased r rfl (hasMail_modify (lifecycleUpsert_subset _) hmail)
  | _ => cases hev

theorem step_erased (h : AccountStep s c s' c' ev) {r : Removal} (hc : c' = .erased r) :
    ¬ HasMail s' .primary r.id := by
  cases h with
  | erase =>
    cases hc
    rintro ⟨row, hrow, haccount⟩
    have hrow' : row ∈ ((s.modify .primary (eraseEmails r.id)).databases .primary).emails := hrow
    rw [modify_self] at hrow'
    exact not_mem_eraseEmails hrow' haccount
  | fail =>
    unfold afterFailure rollback at hc
    (repeat' split at hc) <;> cases hc
  | compare | bindOld | bindLost =>
    unfold rollback at hc
    (repeat' split at hc) <;> cases hc
  | recount | look | readAddress | route => (repeat' split at hc) <;> cases hc
  | _ => cases hc

def demoAccount : MailAccountRow := ⟨js "a1", 1, js "me@example.org", true⟩

def demoMail : EmailRow :=
  ⟨js "m1", some (js "imap_custom"), some (js "a1"), some (js "me@example.org"), some 0, some 0, none, none, none,
    none, none, none, none, none⟩

theorem demoMail_tenant : tenant demoMail = some (js "a1") := by decide

/-- One account, with its address and its binding, on no shard. -/
def demoStore : Store where
  databases _ := ⟨[], []⟩
  accounts := [demoAccount]
  address := [⟨1, js "me@example.org", external⟩]
  bindings := [⟨1, 1⟩]
  owner _ := none
  nextAddress := 2
  drawn := [js "a1"]
  clock := 0

theorem demoStore_consistent : Consistent demoStore where
  accountIds := by decide
  drawn := by decide
  addressIds := by decide
  addressNames := by decide
  nextAddress := by decide
  boundOnce := by decide
  oneUser := by decide

theorem insertsLiving_of_none {i : ℕ} (h : (w.pc i).batch = none) : InsertsLiving w i := by
  intro place rows hbatch
  rw [h] at hbatch
  cases hbatch

end OneMail.Accounts
