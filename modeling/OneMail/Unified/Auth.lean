import OneMail.Unified.ApiKeys

/-! Who asks, and the rows that are theirs (`auth_scope.ts`).

    The middleware leaves one of four callers: an administrator, a user, the holder of an address
    credential, or an API key. What a user owns is what the ownership subqueries find for them. -/

namespace OneMail.Unified
open JsString

inductive Caller where
  | admin
  /-- The user's mail accounts, and the native addresses bound to them. -/
  | user (accounts addresses : List JsString)
  /-- The address of the credential, and `toLowerCase` on addresses. -/
  | address (address : JsString) (lower : JsString → JsString)
  | apiKey (key : ApiKeyRow)

/-- The filter of a query with the caller's scope; `none` where it throws. -/
def resolveScopedEmailFilter (caller : Caller) (q : Query) : Option (List Clause) :=
  match caller with
  | .admin => some (buildEmailFilters q)
  | .user accounts addresses =>
    some (if truthy q.domain then [.never] else buildEmailFilters q ++ [.owned accounts addresses])
  | .address address lower =>
    some (if truthy q.domain then [.never]
      else if truthy q.addr ∧ q.addr.map (fun v => lower (trim v)) ≠ some (lower address) then [.never]
      else buildEmailFilters q ++ [.eq .toAddr (lower address)])
  | .apiKey key =>
    if truthy q.domain ∧ key.role ≠ .admin then some [.never] else (scopeQuery key q).map buildEmailFilters

end OneMail.Unified
