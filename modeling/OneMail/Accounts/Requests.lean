import OneMail.Lib.Interleave
import OneMail.Lib.Table
import OneMail.Mutation.Rows

/-! External mail accounts: their creation and removal, and the ingest of their mail
    (`mail_accounts.ts`, `account_lifecycle_schema.ts`, `ingest.ts`, `archival_ingest.ts`,
    `shard_routes.ts`).

    An account row names a mailbox by its normalised user name. Creating it also makes an external address
    of that name and binds it to the user; removing it leaves a tombstone in `mail_account_lifecycle` and
    deletes its mail, at a shard and in the primary. Every D1 round trip is a step of its own, and any step
    may fail. -/

namespace OneMail.Accounts
open JsString Interleave Table
open Mutation (EmailRow)

/-! ### Tables -/

structure AddressRow where
  id : ℕ
  name : JsString
  sourceMeta : Option JsString
  deriving DecidableEq

/-- A row of `users_address`. -/
structure BindingRow where
  userId : ℕ
  addressId : ℕ
  deriving DecidableEq

/-- A row of `user_mail_accounts`, as far as the requests read it. -/
structure MailAccountRow where
  id : JsString
  userId : ℕ
  username : JsString
  enabled : Bool
  deriving DecidableEq

inductive LifecycleState where | deleting | purged
  deriving DecidableEq

structure LifecycleRow where
  accountId : JsString
  userId : Option ℕ
  username : Option JsString
  state : LifecycleState
  deletingAt : ℕ
  purgedAt : Option ℕ
  deriving DecidableEq

/-- The primary database, or the one of a shard. -/
inductive Place where
  | primary
  | shard (id : JsString)
  deriving DecidableEq

/-- The tables that the primary and the shards both have. -/
structure Database where
  emails : List EmailRow
  lifecycle : List LifecycleRow

/-- All databases, the shard map, the next rowid of `address`, the account ids drawn so far, the time. -/
structure Store where
  databases : Place → Database
  accounts : List MailAccountRow
  address : List AddressRow
  bindings : List BindingRow
  owner : JsString → Option JsString
  nextAddress : ℕ
  drawn : List JsString
  clock : ℕ

def external : Option JsString := some (js "external")

def Store.modify (s : Store) (place : Place) (f : Database → Database) : Store :=
  { s with databases := Function.update s.databases place (f (s.databases place)) }

/-! ### Statements -/

def lifecycleState (db : Database) (accountId : JsString) : Option LifecycleState :=
  (db.lifecycle.find? (·.accountId = accountId)).map (·.state)

/-- The INSERT of `lifecycleUpsert`. -/
def lifecycleInsert (accountId : JsString) (userId : Option ℕ) (username : Option JsString)
    (state : LifecycleState) (now : ℕ) : LifecycleRow :=
  ⟨accountId, userId, username, state, now, if state = .purged then some now else none⟩

/-- Its `ON CONFLICT`. -/
def LifecycleRow.merge (row excluded : LifecycleRow) : LifecycleRow :=
  { row with
    userId := excluded.userId <|> row.userId
    username := excluded.username <|> row.username
    state := excluded.state
    deletingAt := if excluded.state = .deleting then excluded.deletingAt else row.deletingAt
    purgedAt := excluded.purgedAt }

def lifecycleUpsert (excluded : LifecycleRow) (db : Database) : Database :=
  { db with
    lifecycle := if db.lifecycle.any (·.accountId = excluded.accountId) then
        updateWhere (·.accountId = excluded.accountId) (·.merge excluded) db.lifecycle
      else db.lifecycle ++ [excluded] }

/-- The tombstone that the purge route of a shard writes. -/
def LifecycleRow.mergePurge (row excluded : LifecycleRow) : LifecycleRow :=
  { row with state := .purged, purgedAt := excluded.purgedAt }

def eraseEmails (accountId : JsString) (db : Database) : Database :=
  { db with emails := deleteWhere (·.accountId = some accountId) db.emails }

/-- `POST /shard/accounts/purge` for one account, one batch. -/
def purgeAccount (accountId : JsString) (now : ℕ) (db : Database) : Database :=
  let excluded := lifecycleInsert accountId none none .purged now
  { eraseEmails accountId db with
    lifecycle := if db.lifecycle.any (·.accountId = accountId) then
        updateWhere (·.accountId = accountId) (·.mergePurge excluded) db.lifecycle
      else db.lifecycle ++ [excluded] }

/-- A batch of `INSERT OR IGNORE INTO emails`. -/
def insertBatch (rows : List EmailRow) (db : Database) : Database :=
  { db with emails := rows.foldl (insertOrIgnore EmailRow.conflicts) db.emails }

def addressIds (name : JsString) (address : List AddressRow) : List ℕ :=
  (address.filter (·.name = name)).map (·.id)

/-- The batch of `remove`: the mail, the account row and the binding of its name. -/
def Store.eraseAccount (s : Store) (user : ℕ) (id username : JsString) : Store :=
  { s.modify .primary (eraseEmails id) with
    accounts := deleteWhere (fun row => row.id = id && row.userId = user) s.accounts
    bindings := deleteWhere (fun b => b.userId = user && b.addressId ∈ addressIds username s.address)
      s.bindings }

/-! ### Requests -/

/-- A create request with its normalised user name; `0` for no limit. -/
structure CreateRequest where
  user : ℕ
  username : JsString
  maxMailAccounts : ℕ
  deriving DecidableEq

/-- The account a removal is about, as its first SELECT found it. -/
structure Removal where
  user : ℕ
  id : JsString
  username : JsString
  deriving DecidableEq

/-- Where a request stands between two round trips. -/
inductive Call where
  | idle
  -- `executeCreateAccount`
  | counted (r : CreateRequest)
  | checked (r : CreateRequest)
  | inserted (r : CreateRequest) (id : JsString)
  | overfull (r : CreateRequest) (id : JsString)
  -- `ensureExternalBinding`
  | binding (r : CreateRequest) (id : JsString)
  | looked (r : CreateRequest) (id : JsString) (existed : Bool)
  | ensured (r : CreateRequest) (id : JsString) (created : Bool)
  | addressed (r : CreateRequest) (id : JsString) (addrId : ℕ) (created : Bool)
  | compared (r : CreateRequest) (id : JsString) (addrId : ℕ) (created existing : Bool)
  | unconflicted (r : CreateRequest) (id : JsString) (addrId : ℕ) (created existing : Bool)
  | bound (r : CreateRequest) (id : JsString)
  /-- Its `catch` deletes the address next. -/
  | undoAddress (r : CreateRequest) (id : JsString) (addrId : ℕ)
  /-- The account row is deleted next. -/
  | undoAccount (r : CreateRequest) (id : JsString)
  -- `toggle`
  | toggling (user : ℕ) (id : JsString) (enabled : Bool)
  -- `remove`
  | loaded (r : Removal)
  | marked (r : Removal)
  | disabled (r : Removal)
  /-- The shard is being asked to purge the account. -/
  | purging (r : Removal) (shard : JsString)
  /-- Nothing is left on a shard; the batch is next. -/
  | purgedShard (r : Removal)
  /-- The batch has run; the last tombstone is next. -/
  | erased (r : Removal)
  -- `insertEmails`, with the lookups made so far
  | checking (place : Place) (todo active : List EmailRow) (lookups : List (JsString × Option LifecycleState))
  /-- Batches of at most 100 rows, of `insertEmails` or of `insertArchive`. -/
  | inserting (place : Place) (rows : List EmailRow)
  deriving DecidableEq

inductive Event where
  /-- `executeCreateAccount` answered success. -/
  | created (id : JsString)
  /-- The lifecycle row of the account became `purged`. -/
  | purged (place : Place) (accountId : JsString)
  deriving DecidableEq

def batchSize : ℕ := 100

/-- `nullableText(email.account_id)` -/
def tenant (row : EmailRow) : Option JsString := row.accountId.filter (· ≠ [])

/-- The `catch` of `ensureExternalBinding`. -/
def rollback (r : CreateRequest) (id : JsString) (addrId : ℕ) (created : Bool) : Call :=
  if created then .undoAddress r id addrId else .undoAccount r id

/-- What a D1 error makes of a request: `ensureExternalBinding` compensates, the others answer 500. -/
def afterFailure : Call → Call
  | .binding r id | .looked r id _ | .ensured r id _ | .undoAddress r id _ => .undoAccount r id
  | .addressed r id addrId created | .compared r id addrId created _ | .unconflicted r id addrId created _ =>
    rollback r id addrId created
  | _ => .idle

/-- The rows that the next batch of a call inserts. -/
def Call.batch : Call → Option (Place × List EmailRow)
  | .inserting place rows => some (place, rows.take batchSize)
  | _ => none

inductive AccountStep : Store → Call → Store → Call → List Event → Prop
  | tick {s} (d : ℕ) : AccountStep s .idle { s with clock := s.clock + d } .idle []
  | publish {s} (owner : JsString → Option JsString) : AccountStep s .idle { s with owner } .idle []
  | fail {s c} : AccountStep s c s (afterFailure c) []
  -- create
  | count {s} (r : CreateRequest)
      (h : r.maxMailAccounts = 0 ∨ (s.accounts.filter (·.userId = r.user)).length < r.maxMailAccounts) :
      AccountStep s .idle s (.counted r) []
  | check {s r} (h : ∀ row ∈ s.accounts, row.username = r.username → row.userId = r.user) :
      AccountStep s (.counted r) s (.checked r) []
  | insert {s r} (id : JsString) (hid : id ∉ s.drawn)
      (h : ∀ row ∈ s.accounts, row.username = r.username → row.enabled = false) :
      AccountStep s (.checked r)
        { s with accounts := s.accounts ++ [⟨id, r.user, r.username, true⟩], drawn := id :: s.drawn }
        (.inserted r id) []
  | recount {s r id} :
      AccountStep s (.inserted r id) s
        (if r.maxMailAccounts ≠ 0 ∧ r.maxMailAccounts < (s.accounts.filter (·.userId = r.user)).length
          then .overfull r id else .binding r id) []
  | retract {s r id} :
      AccountStep s (.overfull r id) { s with accounts := deleteWhere (·.id = id) s.accounts } .idle []
  | look {s r id} :
      AccountStep s (.binding r id) s
        (match s.address.find? (·.name = r.username) with
          | some row => if row.sourceMeta = external then .looked r id true else .undoAccount r id
          | none => .looked r id false) []
  | ensureNew {s r id existed} (h : ∀ row ∈ s.address, row.name ≠ r.username) :
      AccountStep s (.looked r id existed)
        { s with
          address := s.address ++ [⟨s.nextAddress, r.username, external⟩], nextAddress := s.nextAddress + 1 }
        (.ensured r id !existed) []
  | ensureOld {s r id existed} (h : ∃ row ∈ s.address, row.name = r.username) :
      AccountStep s (.looked r id existed) s (.ensured r id false) []
  | readAddress {s r id created} :
      AccountStep s (.ensured r id created) s
        (match s.address.find? (·.name = r.username) with
          | some row => if row.sourceMeta = external then .addressed r id row.id created else .undoAccount r id
          | none => .undoAccount r id) []
  | readBinding {s r id addrId created} :
      AccountStep s (.addressed r id addrId created) s
        (.compared r id addrId created (⟨r.user, addrId⟩ ∈ s.bindings)) []
  | compare {s r id addrId created existing} :
      AccountStep s (.compared r id addrId created existing) s
        (if ∃ b ∈ s.bindings, b.addressId = addrId ∧ b.userId ≠ r.user then rollback r id addrId created
          else .unconflicted r id addrId created existing) []
  | bindNew {s r id addrId created existing} (h : ∀ b ∈ s.bindings, b.addressId ≠ addrId) :
      AccountStep s (.unconflicted r id addrId created existing)
        { s with bindings := s.bindings ++ [⟨r.user, addrId⟩] } (.bound r id) []
  | bindOld {s r id addrId created existing} (h : ∃ b ∈ s.bindings, b.addressId = addrId) :
      AccountStep s (.unconflicted r id addrId created existing) s
        (if existing then .bound r id else rollback r id addrId created) []
  /-- The binding is stored, but its statement is answered with an error. -/
  | bindLost {s r id addrId created existing} (h : ∀ b ∈ s.bindings, b.addressId ≠ addrId) :
      AccountStep s (.unconflicted r id addrId created existing)
        { s with bindings := s.bindings ++ [⟨r.user, addrId⟩] } (rollback r id addrId created) []
  | report {s r id} : AccountStep s (.bound r id) s .idle [.created id]
  | undoAddress {s r id addrId} :
      AccountStep s (.undoAddress r id addrId)
        { s with
          address := deleteWhere
            (fun row => row.id = addrId && row.name = r.username && row.sourceMeta = external) s.address }
        (.undoAccount r id) []
  | undoAccount {s r id} :
      AccountStep s (.undoAccount r id)
        { s with accounts := deleteWhere (fun row => row.id = id && row.userId = r.user) s.accounts } .idle []
  -- toggle
  | readEnabled {s} (user : ℕ) (row : MailAccountRow) (h : row ∈ s.accounts) (huser : row.userId = user) :
      AccountStep s .idle s (.toggling user row.id row.enabled) []
  | toggle {s user id enabled}
      (h : enabled = false → ∀ row ∈ s.accounts, row.id = id → ∀ row' ∈ s.accounts, row'.username = row.username →
        row'.id ≠ id → row'.enabled = false) :
      AccountStep s (.toggling user id enabled)
        { s with
          accounts := updateWhere (fun row => row.id = id && row.userId = user)
            (fun row => { row with enabled := !enabled }) s.accounts } .idle []
  -- remove
  | load {s} (row : MailAccountRow) (h : row ∈ s.accounts) :
      AccountStep s .idle s (.loaded ⟨row.userId, row.id, row.username⟩) []
  | mark {s r} :
      AccountStep s (.loaded r)
        (s.modify .primary (lifecycleUpsert (lifecycleInsert r.id (some r.user) (some r.username) .deleting s.clock)))
        (.marked r) []
  | disable {s r} :
      AccountStep s (.marked r)
        { s with
          accounts := updateWhere (fun row => row.id = r.id && row.userId = r.user)
            (fun row => { row with enabled := false }) s.accounts } (.disabled r) []
  | route {s r} :
      AccountStep s (.disabled r) s
        (match s.owner r.id with
          | some shard => .purging r shard
          | none => .purgedShard r) []
  /-- The purge is carried out and acknowledged. -/
  | purge {s r shard} :
      AccountStep s (.purging r shard) (s.modify (.shard shard) (purgeAccount r.id s.clock)) (.purgedShard r)
        [.purged (.shard shard) r.id]
  /-- The gateway has given up, and the shard carries out the purge after all. -/
  | latePurge {s r shard} :
      AccountStep s (.purging r shard) (s.modify (.shard shard) (purgeAccount r.id s.clock)) .idle
        [.purged (.shard shard) r.id]
  | erase {s r} :
      AccountStep s (.purgedShard r) (s.eraseAccount r.user r.id r.username) (.erased r) []
  | tombstone {s r} :
      AccountStep s (.erased r)
        (s.modify .primary (lifecycleUpsert (lifecycleInsert r.id (some r.user) (some r.username) .purged s.clock)))
        .idle [.purged .primary r.id]
  -- ingest
  | ingest {s} (place : Place) (rows : List EmailRow) : AccountStep s .idle s (.checking place rows [] []) []
  | free {s place row todo active lookups} (h : tenant row = none) :
      AccountStep s (.checking place (row :: todo) active lookups) s
        (.checking place todo (active ++ [row]) lookups) []
  | lookup {s place row todo active lookups accountId} (h : tenant row = some accountId)
      (hnew : lookups.lookup accountId = none) :
      AccountStep s (.checking place (row :: todo) active lookups) s
        (.checking place (row :: todo) active
          ((accountId, lifecycleState (s.databases place) accountId) :: lookups)) []
  | sort {s place row todo active lookups accountId} {state : Option LifecycleState}
      (h : tenant row = some accountId) (hseen : lookups.lookup accountId = some state) :
      AccountStep s (.checking place (row :: todo) active lookups) s
        (.checking place todo (if state = none then active ++ [row] else active) lookups) []
  | begin {s place active lookups} :
      AccountStep s (.checking place [] active lookups) s (.inserting place active) []
  /-- `insertArchive` looks nothing up. -/
  | archive {s} (shard : JsString) (rows : List EmailRow) :
      AccountStep s .idle s (.inserting (.shard shard) rows) []
  | insertRows {s place rows} (h : rows ≠ []) :
      AccountStep s (.inserting place rows) (s.modify place (insertBatch (rows.take batchSize)))
        (.inserting place (rows.drop batchSize)) []
  | finish {s place} : AccountStep s (.inserting place []) s .idle []

/-- What the unique keys of the tables say, and that accounts of one name have one user. -/
structure Consistent (s : Store) : Prop where
  accountIds : (s.accounts.map (·.id)).Nodup
  drawn : ∀ row ∈ s.accounts, row.id ∈ s.drawn
  addressIds : (s.address.map (·.id)).Nodup
  addressNames : (s.address.map (·.name)).Nodup
  nextAddress : ∀ row ∈ s.address, row.id < s.nextAddress
  boundOnce : (s.bindings.map (·.addressId)).Nodup
  oneUser : ∀ row ∈ s.accounts, ∀ row' ∈ s.accounts, row.username = row'.username → row.userId = row'.userId

def accounts : Prog Store Call Event where
  idle := .idle
  init := Consistent
  step := AccountStep

end OneMail.Accounts
