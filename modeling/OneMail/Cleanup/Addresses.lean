import OneMail.Js.JsString
import OneMail.Lib.Interleave
import OneMail.Lib.Table

/-! The bulk deletion of addresses, `cleanup` and `batchDeleteAddressWithData` (`common.ts`), beside the
    requests that touch the same tables: mail and bindings stored, `updateAddressUpdatedAt`, and the two
    ways of deleting one address (`deleteAddressWithData`, `address_api.ts`).

    An address has rows in six other tables, in five of them under its name and in `users_address` under
    its id. The cleanup deletes them by six statements and the address by a seventh, each with the same
    subquery over the tables as they are then. Times are in seconds. -/

namespace OneMail.Cleanup
open JsString Interleave Table

/-- A row of `address`, as far as the statements read it. -/
structure AddressRow where
  id : ℕ
  name : JsString
  createdAt : Option ℕ
  updatedAt : Option ℕ
  deriving DecidableEq

/-- The tables with rows of an address. -/
inductive Target where | rawMails | emails | sendbox | autoReply | sender | bindings
  deriving DecidableEq

/-- What a row says of its address. -/
inductive Key where
  | name (name : JsString)
  | id (addressId : ℕ)
  deriving DecidableEq

/-- A row of one of these tables, with the place it has among all rows ever stored. -/
structure Row where
  key : Option Key
  stored : ℕ
  deriving DecidableEq

structure Database where
  address : List AddressRow
  rows : Target → List Row
  now : ℕ
  stored : ℕ

/-- The column of the table that names the address. -/
def Target.key (t : Target) (a : AddressRow) : Key :=
  match t with
  | .bindings => .id a.id
  | _ => .name a.name

/-- The rows of an address. -/
def Database.rowsOf (db : Database) (t : Target) (a : AddressRow) : List Row :=
  (db.rows t).filter (·.key = some (t.key a))

def Database.modify (db : Database) (t : Target) (f : List Row → List Row) : Database :=
  { db with rows := Function.update db.rows t (f (db.rows t)) }

/-! ### The subquery -/

/-- The cleanup types that delete addresses. -/
inductive CleanType where | inactiveAddress | addressCreated | unboundAddress | emptyAddress
  deriving DecidableEq

/-- `cleanDays` is an age in seconds here, `cleanupBatchSize` is the LIMIT. -/
structure CleanupJob where
  cleanType : CleanType
  age : ℕ
  cleanupBatchSize : ℕ

/-- The column that the subquery compares and orders by. -/
def CleanType.stamp : CleanType → AddressRow → Option ℕ
  | .inactiveAddress, a => a.updatedAt
  | _, a => a.createdAt

/-- The `NOT EXISTS` of `unboundAddress` and the `NOT IN` of `emptyAddress`. -/
def CleanType.bare (cleanType : CleanType) (db : Database) (a : AddressRow) : Bool :=
  match cleanType with
  | .unboundAddress => (db.rowsOf .bindings a).isEmpty
  | .emptyAddress => (db.rowsOf .rawMails a).isEmpty
  | _ => true

def CleanupJob.qualifies (job : CleanupJob) (db : Database) (a : AddressRow) : Bool :=
  job.cleanType.bare db a && (job.cleanType.stamp a).any (· + job.age < db.now)

/-- `ORDER BY updated_at, id` or `ORDER BY created_at, id`. -/
def CleanType.before (cleanType : CleanType) (a b : AddressRow) : Prop :=
  (cleanType.stamp a).getD 0 < (cleanType.stamp b).getD 0 ∨
    (cleanType.stamp a).getD 0 = (cleanType.stamp b).getD 0 ∧ a.id ≤ b.id

instance (cleanType : CleanType) : DecidableRel cleanType.before := fun _ _ => inferInstanceAs (Decidable (_ ∨ _))

def CleanupJob.window (job : CleanupJob) (db : Database) : List ℕ :=
  (selectTop (job.qualifies db) job.cleanType.before job.cleanupBatchSize db.address).map (·.id)

/-- `SELECT … FROM address WHERE id IN (SELECT …)` -/
def CleanupJob.selected (job : CleanupJob) (db : Database) : List AddressRow :=
  db.address.filter (·.id ∈ job.window db)

/-! ### Statements -/

/-- `DELETE FROM t WHERE address IN (SELECT name FROM address WHERE …)` -/
def CleanupJob.sweep (job : CleanupJob) (t : Target) (db : Database) : Database :=
  db.modify t (deleteWhere fun row => row.key.any (· ∈ (job.selected db).map t.key))

/-- The last statement. -/
def CleanupJob.deleteAddresses (job : CleanupJob) (db : Database) : Database :=
  { db with address := deleteWhere (·.id ∈ job.window db) db.address }

/-- The order of the first six statements. -/
def sweepOrder : List Target := [.rawMails, .emails, .sendbox, .autoReply, .sender, .bindings]

/-- The order of the first six statements of `deleteAddressWithData`. -/
def deletionOrder : List Target := [.rawMails, .emails, .sender, .sendbox, .bindings, .autoReply]

/-- `INSERT`, `INSERT OR REPLACE` in `auto_reply_mails`, nothing on the UNIQUE keys of the last two. -/
def insertRow (t : Target) (row : Row) (rows : List Row) : List Row :=
  let clash := fun old : Row => row.key.isSome && old.key = row.key
  match t with
  | .autoReply => deleteWhere clash rows ++ [row]
  | .sender | .bindings => if rows.any clash then rows else rows ++ [row]
  | _ => rows ++ [row]

def Database.store (db : Database) (t : Target) (key : Option Key) : Database :=
  { db.modify t (insertRow t ⟨key, db.stored⟩) with stored := db.stored + 1 }

/-- The seconds of `-1 day`. -/
def day : ℕ := 86400

def updateAddressUpdatedAt (name : JsString) (db : Database) : Database :=
  { db with
    address := updateWhere (fun a => a.name = name && a.updatedAt.all (· + day < db.now))
      (fun a => { a with updatedAt := some db.now }) db.address }

/-- One statement of `deleteAddressWithData`. -/
def eraseRows (t : Target) (a : AddressRow) (db : Database) : Database :=
  db.modify t (deleteWhere (·.key = some (t.key a)))

/-- The batch of the admin route. -/
def eraseAddress (a : AddressRow) (db : Database) : Database :=
  { sweepOrder.foldl (fun db t => eraseRows t a db) db with address := deleteWhere (·.id = a.id) db.address }

/-! ### Requests -/

inductive Event where
  /-- The cleanup deletes a row of the address. -/
  | lost (addressId : ℕ)
  /-- The address is deleted, when so many rows have been stored. -/
  | deleted (addressId stored : ℕ)
  deriving DecidableEq

/-- Where another request stands. -/
inductive Call where
  | idle
  /-- `deleteAddressWithData` with the statements it still has to run before the address's. -/
  | deleting (a : AddressRow) (todo : List Target)
  deriving DecidableEq

inductive OtherStep : Database → Call → Database → Call → List Event → Prop
  | tick {db} (d : ℕ) : OtherStep db .idle { db with now := db.now + d } .idle []
  | fail {db c} : OtherStep db c db .idle []
  /-- A mail, a reply or a balance is stored under a name, whether it still exists or not. -/
  | store {db} (t : Target) (name : Option JsString) (h : t ≠ .bindings) :
      OtherStep db .idle (db.store t (name.map .name)) .idle []
  | bind {db} (addressId : Option ℕ) : OtherStep db .idle (db.store .bindings (addressId.map .id)) .idle []
  | touch {db} (name : JsString) : OtherStep db .idle (updateAddressUpdatedAt name db) .idle []
  /-- The admin route, one batch. -/
  | eraseAddress {db} (a : AddressRow) (h : a ∈ db.address) :
      OtherStep db .idle (eraseAddress a db) .idle [.deleted a.id db.stored]
  | delete {db} (a : AddressRow) (h : a ∈ db.address) : OtherStep db .idle db (.deleting a deletionOrder) []
  | eraseRows {db a t todo} : OtherStep db (.deleting a (t :: todo)) (eraseRows t a db) (.deleting a todo) []
  | deleteAddress {db a} :
      OtherStep db (.deleting a []) { db with address := deleteWhere (·.name = a.name) db.address } .idle
        ((db.address.filter (·.name = a.name)).map fun b => .deleted b.id db.stored)

/-- The unique keys of `address`. -/
structure Consistent (db : Database) : Prop where
  ids : (db.address.map (·.id)).Nodup
  names : (db.address.map (·.name)).Nodup

def others : Prog Database Call Event where
  idle := .idle
  init := Consistent
  step := OtherStep

/-! ### Runs of the cleanup -/

/-- What the cleanup's statement on a table takes: every selected address with a row there. -/
def CleanupJob.losses (job : CleanupJob) (t : Target) (db : Database) : List Event :=
  ((job.selected db).filter fun a => !(db.rowsOf t a).isEmpty).map fun a => .lost a.id

def CleanupJob.deletions (job : CleanupJob) (db : Database) : List Event :=
  (job.selected db).map fun a => .deleted a.id db.stored

/-- The worlds that a cleanup which starts at `w₀` may reach with the statements on `ts` still to do, and with the
    steps of any other requests between its statements; `C` is asked of the steps of the others. -/
inductive Run (job : CleanupJob)
    (C : List Target → World Database Call Event → ℕ → World Database Call Event → Prop)
    (w₀ : World Database Call Event) : List Target → World Database Call Event → Prop
  | start : Run job C w₀ sweepOrder w₀
  | other {ts w w'} (i : ℕ) (h : Run job C w₀ ts w) (hC : C ts w i w') (hst : Step others i w w') : Run job C w₀ ts w'
  | sweep {t ts w} (h : Run job C w₀ (t :: ts) w) :
      Run job C w₀ ts { w with store := job.sweep t w.store, trace := job.losses t w.store ++ w.trace }

/-- The cleanup has run its last statement. -/
inductive Finished (job : CleanupJob)
    (C : List Target → World Database Call Event → ℕ → World Database Call Event → Prop)
    (w₀ : World Database Call Event) : World Database Call Event → Prop
  | finish {w} (h : Run job C w₀ [] w) :
      Finished job C w₀ { w with store := job.deleteAddresses w.store, trace := job.deletions w.store ++ w.trace }

end OneMail.Cleanup
