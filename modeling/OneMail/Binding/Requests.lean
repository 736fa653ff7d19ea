import OneMail.Accounts.Requests

/-! Binding an address to a user, unbinding it, and transferring it (`bind_address.ts`, `quota.ts`).

    `users_address` has no foreign key: a binding names an address by its id alone, and at most one
    binding names each id. A transfer deletes the address row and inserts one of the same name under a
    new id. Every D1 statement is a step of its own, the batch of the transfer is one step, and any step
    may fail. -/

namespace OneMail.Binding
open JsString Interleave Table
open Accounts (AddressRow BindingRow external)

/-- A row of `users`, as far as the requests read it. -/
structure UserRow where
  id : ℕ
  email : JsString
  deriving DecidableEq

structure Store where
  users : List UserRow
  address : List AddressRow
  bindings : List BindingRow
  nextAddress : ℕ

/-- `address_id` and `user_id` of `bindByID` or `unbind`, with the user's limit; `0` for no limit. -/
structure Request where
  user : ℕ
  addressId : ℕ
  maxAddressCount : ℕ
  deriving DecidableEq

/-- A transfer request, with the limit of the target user. -/
structure Transfer extends Request where
  targetEmail : JsString
  deriving DecidableEq

/-- Where a request stands between two statements. -/
inductive Call where
  | idle
  -- `bindByID`
  | bindAddress (r : Request)
  | bindUser (r : Request)
  | bindExisting (r : Request)
  | bindLimit (r : Request)
  | bindInsert (r : Request)
  -- `unbind`
  | unbindAddress (r : Request)
  | unbindUser (r : Request)
  | unbindDelete (r : Request)
  -- `transferAddress`
  | transferName (t : Transfer)
  | transferUser (t : Transfer) (name : JsString)
  | transferTarget (t : Transfer) (name : JsString)
  | transferLimit (t : Transfer) (name : JsString) (target : ℕ)
  | transferExisting (t : Transfer) (name : JsString) (target : ℕ)
  | transferTelegram (t : Transfer) (name : JsString) (target : ℕ)
  | transferBatch (t : Transfer) (name : JsString) (target : ℕ)
  deriving DecidableEq

/-- How a request was answered. -/
inductive Event where
  | succeeded
  | failed
  deriving DecidableEq

/-! ### Statements -/

/-- The count of `isAddressCountLimitReached`: external addresses are left out. -/
def boundCount (s : Store) (user : ℕ) : ℕ :=
  ((s.bindings.filter (·.userId = user)).flatMap fun b =>
    s.address.filter fun row => row.id = b.addressId && row.sourceMeta ≠ external).length

def isAddressCountLimitReached (s : Store) (user maxAddressCount : ℕ) : Bool :=
  maxAddressCount ≠ 0 && maxAddressCount ≤ boundCount s user

/-- An INSERT into `users_address`, which fails on the UNIQUE key. -/
def insertBinding (bindings : List BindingRow) (row : BindingRow) : Option (List BindingRow) :=
  if bindings.any (·.addressId = row.addressId) then none else some (bindings ++ [row])

/-- The batch of `transferAddress` with the changes of its last statement; `none` when a UNIQUE key fails and the
    batch is rolled back. -/
def Store.replaceAddress (s : Store) (t : Transfer) (name : JsString) (target : ℕ) : Option (Store × ℕ) :=
  let bindings := deleteWhere (fun b => b.userId = t.user && b.addressId = t.addressId) s.bindings
  let kept := deleteWhere (·.id = t.addressId) s.address
  if kept.any (·.name = name) then none
  else
    let address := kept ++ [⟨s.nextAddress, name, none⟩]
    let granted := (address.filter (·.name = name)).map fun row => BindingRow.mk target row.id
    (granted.foldlM insertBinding bindings).map fun bindings =>
      ({ s with address, bindings, nextAddress := s.nextAddress + 1 }, granted.length)

/-! ### Requests -/

inductive BindStep : Store → Call → Store → Call → List Event → Prop
  | fail {s c} : BindStep s c s .idle [.failed]
  -- bindByID
  | bind {s} (r : Request) (h : r.addressId ≠ 0 ∧ r.user ≠ 0) : BindStep s .idle s (.bindAddress r) []
  | bindAddress {s r} (h : ∃ row ∈ s.address, row.id = r.addressId) :
      BindStep s (.bindAddress r) s (.bindUser r) []
  | bindUser {s r} (h : ∃ row ∈ s.users, row.id = r.user) : BindStep s (.bindUser r) s (.bindExisting r) []
  | bindExisting {s r} (h : ⟨r.user, r.addressId⟩ ∈ s.bindings) :
      BindStep s (.bindExisting r) s .idle [.succeeded]
  | bindFree {s r} (h : ⟨r.user, r.addressId⟩ ∉ s.bindings) : BindStep s (.bindExisting r) s (.bindLimit r) []
  | bindLimit {s r} (h : isAddressCountLimitReached s r.user r.maxAddressCount = false) :
      BindStep s (.bindLimit r) s (.bindInsert r) []
  | bindInsert {s r bindings} (h : insertBinding s.bindings ⟨r.user, r.addressId⟩ = some bindings) :
      BindStep s (.bindInsert r) { s with bindings } .idle [.succeeded]
  -- unbind
  | unbind {s} (r : Request) (h : r.addressId ≠ 0 ∧ r.user ≠ 0) : BindStep s .idle s (.unbindAddress r) []
  | unbindAddress {s r} (h : ∃ row ∈ s.address, row.id = r.addressId) :
      BindStep s (.unbindAddress r) s (.unbindUser r) []
  | unbindUser {s r} (h : ∃ row ∈ s.users, row.id = r.user) : BindStep s (.unbindUser r) s (.unbindDelete r) []
  | unbindDelete {s r} :
      BindStep s (.unbindDelete r)
        { s with bindings := deleteWhere (fun b => b.userId = r.user && b.addressId = r.addressId) s.bindings }
        .idle [.succeeded]
  -- transferAddress
  | transfer {s} (t : Transfer) : BindStep s .idle s (.transferName t) []
  | transferName {s t} (row : AddressRow) (h : row ∈ s.address) (hid : row.id = t.addressId) (hname : row.name ≠ []) :
      BindStep s (.transferName t) s (.transferUser t row.name) []
  | transferUser {s t name} (h : ∃ row ∈ s.users, row.id = t.user) :
      BindStep s (.transferUser t name) s (.transferTarget t name) []
  | transferTarget {s t name} (row : UserRow) (h : row ∈ s.users) (hemail : row.email = t.targetEmail)
      (hid : row.id ≠ 0) : BindStep s (.transferTarget t name) s (.transferLimit t name row.id) []
  | transferLimit {s t name target} (h : isAddressCountLimitReached s target t.maxAddressCount = false) :
      BindStep s (.transferLimit t name target) s (.transferExisting t name target) []
  | transferExisting {s t name target} (h : ⟨t.user, t.addressId⟩ ∈ s.bindings) :
      BindStep s (.transferExisting t name target) s (.transferTelegram t name target) []
  /-- `unbindTelegramByAddress` touches KV only. -/
  | transferTelegram {s t name target} :
      BindStep s (.transferTelegram t name target) s (.transferBatch t name target) []
  | transferBatch {s t name target s' changes} (h : s.replaceAddress t name target = some (s', changes)) :
      BindStep s (.transferBatch t name target) s' .idle [if changes = 1 then .succeeded else .failed]

/-- A user owns a name when a binding of his references an address row of that name. -/
def Owns (s : Store) (user : ℕ) (name : JsString) : Prop :=
  ∃ row ∈ s.address, row.name = name ∧ ⟨user, row.id⟩ ∈ s.bindings

/-- Every binding references an address. -/
def Referenced (s : Store) : Prop := ∀ b ∈ s.bindings, ∃ row ∈ s.address, row.id = b.addressId

/-- What the keys of the tables say, and that every binding references an address. -/
structure Consistent (s : Store) : Prop where
  addressIds : (s.address.map (·.id)).Nodup
  addressNames : (s.address.map (·.name)).Nodup
  nextAddress : ∀ row ∈ s.address, row.id < s.nextAddress
  boundOnce : (s.bindings.map (·.addressId)).Nodup
  referenced : Referenced s

def requests : Prog Store Call Event where
  idle := .idle
  init := Consistent
  step := BindStep

end OneMail.Binding
