import OneMail.Mutation.Handlers
import OneMail.Unified.Shards

/-! A mutation across the shards (`federation.ts`, `index.ts`, `shard_routes.ts`).

    The gateway first looks for the row: in the primary, then on every shard that owns one of the caller's
    accounts. Only when one owner is known does it send the mutation, to that owner and with the scope of
    the one account. A shard checks the row against that scope once more before its handler runs. -/

namespace OneMail.Unified
open JsString
open Mutation (Site Action Handled Reply handle declined)

inductive Place where
  | primary
  | shard (id : JsString)
  deriving DecidableEq

/-- What becomes of a request to a shard: it is lost, it is carried out but the answer is lost, or it is
    answered. -/
inductive Link where | down | silent | up
  deriving DecidableEq

/-- The surroundings of one phase of a request; of each database what it holds when it is read. -/
structure Moment where
  caller : Caller
  sites : Place → Site
  links : JsString → Link

/-! ### A shard -/

def shardScopeAllowsRow (t : Target) (row : Mutation.EmailRow) : Bool :=
  row.accountId.any (fun id => id ≠ [] && id ∈ t.accountIds) &&
    t.sources.all fun sources => row.source.any fun source => source ≠ [] && source ∈ sources

/-- The refusal of the middleware of `/shard/*`, if it refuses a request on a row. -/
def refusal (t : Target) (site : Site) (emailId : JsString) : Option Reply :=
  if t.accountIds = [] ∨ t.sources = some [] then some (.error 403 "forbidden")
  else if canAccess t.gatewayKey true none none = false then some (.error 403 "forbidden")
  else match site.store.emails.find? (·.id = emailId) with
    | some row => if shardScopeAllowsRow t row then none else some (.error 403 "forbidden")
    | none => none

/-- `GET /shard/emails/:id` -/
def shardDetail (t : Target) (site : Site) (emailId : JsString) : Reply :=
  match refusal t site emailId with
  | some reply => reply
  | none => match site.store.emails.find? (·.id = emailId) with
    | none => .error 404 "not found"
    | some row => .row row

/-- The mutation endpoints of a shard. -/
def shardMutation (t : Target) (action : Action) (emailId job : JsString) (site : Site) : Handled :=
  match refusal t site emailId with
  | some reply => declined site reply
  | none =>
    handle (fun _ => true) (fun row => canAccessRow t.gatewayKey row.source row.accountId) action emailId job site

/-! ### The gateway's answers -/

structure ScopedShardResult where
  status : ℕ
  data : Option Reply

def scopedResult (link : Link) (reply : Reply) : ScopedShardResult :=
  if link = .up then ⟨reply.status, some reply⟩ else ⟨503, none⟩

def ScopedShardResult.ok (result : ScopedShardResult) : Bool := 200 ≤ result.status && result.status < 300

def authoritativeEmailResult (map : ShardMap) (t : Target) (emailId : JsString) (result : ScopedShardResult) :
    ScopedShardResult :=
  if result.ok = false then result
  else match result.data with
    | some (.row row) =>
      match row.accountId, row.source with
      | some accountId, some source =>
        if row.id ≠ emailId then ⟨503, none⟩
        -- a readable migration copy is still not an owner
        else if source = js "cf_routing" ∨ map.owner accountId ≠ some t.shard then ⟨404, none⟩
        else if accountId ∉ t.accountIds ∨ t.sources.any (source ∉ ·) then ⟨403, some (.error 403 "forbidden")⟩
        else result
      | _, _ => ⟨503, none⟩
    | _ => ⟨503, none⟩

/-- `excludeRemoteSql` as a condition on the rows that the handlers load. -/
def primaryOnly (map : ShardMap) (row : Mutation.EmailRow) : Bool :=
  row.source = some (js "cf_routing") || row.accountId.all (· ∉ remoteAccountIds map)

structure Location where
  shard : Option JsString
  accountId : Option JsString
  degraded : List JsString
  duplicate : Bool
  rejected : Option ScopedShardResult
  primary : Bool

/-- What each target answers about the row. -/
def probes (map : ShardMap) (m : Moment) (targets : List Target) (emailId : JsString) :
    List (Target × ScopedShardResult) :=
  targets.map fun t => (t, authoritativeEmailResult map t emailId
    (scopedResult (m.links t.shard) (shardDetail t (m.sites (.shard t.shard)) emailId)))

/-- What the answers say about the owner. -/
def locate (results : List (Target × ScopedShardResult)) : Location :=
  let hits := results.filter (·.2.ok)
  let hit := match hits with
    | [hit] => some hit
    | _ => none
  { shard := hit.map (·.1.shard)
    accountId := hit.bind fun hit => match hit.2.data with
      | some (.row row) => row.accountId
      | _ => none
    degraded := (results.filter (500 ≤ ·.2.status)).map (·.1.shard)
    duplicate := 1 < hits.length
    rejected := if hits ≠ [] then none
      else (results.find? fun r => r.2.status ∈ [400, 403, 409]).map (·.2)
    primary := false }

/-- `none` where reading the whitelists throws. -/
def locateRemoteEmailOwner (map : ShardMap) (m : Moment) (emailId : JsString) : Option Location :=
  if emailId = [] then
    some ⟨none, none, [], false, some ⟨400, some (.error 400 "invalid email id")⟩, false⟩
  else do
    let owned ← listOwnedAccountIds m.caller
    let rest ← scopedRest m.caller Query.empty
    match (m.sites .primary).store.emails.find? fun row => row.id = emailId && primaryOnly map row with
    | some _ => some ⟨none, none, [], false, none, true⟩
    | none => some (locate (probes map m (scopedTargets map rest owned) emailId))

/-! ### The mutation -/

/-- The databases after a request, the answer, and the rows that a handler wrote. -/
structure Outcome where
  sites : Place → Site
  reply : Reply
  writes : List (Place × Mutation.EmailRow)

def unwritten (m : Moment) (reply : Reply) : Outcome := ⟨m.sites, reply, []⟩

/-- A handler has run at a place. -/
def ran (m : Moment) (place : Place) (h : Handled) (reply : Reply) : Outcome :=
  ⟨Function.update m.sites place h.site, reply, (h.wrote.map fun row => (place, row)).toList⟩

def checkRowAccess (caller : Caller) (row : Mutation.EmailRow) : Bool :=
  match caller with
  | .admin => true
  | .user accounts addresses =>
    row.accountId.getD [] ∈ accounts || row.source = some (js "cf_routing") && row.toAddr.getD [] ∈ addresses
  | .address address lower => lower (row.toAddr.getD []) = lower address
  | .apiKey key => canAccessRow key row.source row.accountId

/-- The handler of the primary; `kept` is what `primaryOnlyContext` adds to its lookup. -/
def runLocal (m : Moment) (kept : Mutation.EmailRow → Bool) (action : Action) (emailId job : JsString) : Outcome :=
  let h := handle kept (checkRowAccess m.caller) action emailId job (m.sites .primary)
  ran m .primary h h.reply

def relay (shard : JsString) (result : ScopedShardResult) : Reply :=
  match result.data with
  | some reply =>
    if result.ok = true ∨ result.status ∈ [400, 403, 404, 409] then reply else .unavailable [shard]
  | none => .unavailable [shard]

/-- The one write request, narrowed to the account the row was found under. -/
def applyToShard (map : ShardMap) (m : Moment) (shard : JsString) (action : Action) (emailId job : JsString)
    (location : Location) : Outcome :=
  match location.accountId with
  | none => unwritten m (.error 409 "email owner changed")
  | some accountId =>
    if location.shard ≠ some shard ∨ accountId = [] ∨ location.duplicate = true ∨ location.degraded ≠ [] ∨
        map.owner accountId ≠ some shard then unwritten m (.error 409 "email owner changed")
    else match listOwnedAccountIds m.caller, scopedRest m.caller Query.empty with
      | some owned, some rest =>
        match (scopedTargets map rest owned).find? (·.shard = shard) with
        | none => unwritten m (.error 403 "forbidden")
        | some t =>
          if accountId ∉ t.accountIds then unwritten m (.error 403 "forbidden")
          else
            let narrow : Target := { t with accountIds := [accountId] }
            let h := shardMutation narrow action emailId job (m.sites (.shard shard))
            if m.links shard = .down then unwritten m (.unavailable [shard])
            else ran m (.shard shard) h (relay shard (scopedResult (m.links shard) h.reply))
      | _, _ => unwritten m (.error 500 "invalid scope")

/-- The databases may change between the search for the owner and the write. -/
def applyIfExists (map : ShardMap) (preflight dispatch : Moment) (action : Action) (emailId job : JsString) :
    Outcome :=
  if map.shards = [] then runLocal dispatch (fun _ => true) action emailId job
  else match locateRemoteEmailOwner map preflight emailId with
    | none => unwritten dispatch (.error 500 "invalid scope")
    | some owner =>
      if owner.duplicate then unwritten dispatch (.error 409 "duplicate email owners")
      else if owner.degraded ≠ [] then unwritten dispatch (.unavailable owner.degraded)
      else match owner.rejected.bind (·.data) with
        | some reply => unwritten dispatch reply
        | none => match owner.shard with
          | some shard => applyToShard map dispatch shard action emailId job owner
          | none =>
            if owner.primary = false then unwritten dispatch (.error 404 "not found")
            else runLocal dispatch (primaryOnly map) action emailId job

end OneMail.Unified
