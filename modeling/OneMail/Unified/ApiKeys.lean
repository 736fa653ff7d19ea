import OneMail.Unified.Filter

/-! API keys and their whitelists (`api_keys.ts`, `key_admin.ts`).

    A key row holds two whitelists as the JSON that `createKey` was given. A request is checked twice:
    `canAccess` looks at its query parameters, and `scopeQuery` writes the whitelist into a parameter
    that is absent. A row is checked by `canAccessRow`. -/

namespace OneMail.Unified
open JsString

/-! ### JSON values -/

def isNumberChar (c : UInt16) : Bool :=
  (0x30 ≤ c && c ≤ 0x39) || c = 0x2E || c = 0x2D || c = 0x2B || c = 0x65

/-- A JSON number, as JavaScript prints it. -/
structure JsonNumber where
  text : JsString
  ok : text ≠ [] ∧ text.all isNumberChar = true

/-- A JSON value; of an object the names of its own properties. -/
inductive Json where
  | null
  | bool (b : Bool)
  | number (n : JsonNumber)
  | string (s : JsString)
  | array (items : List Json)
  | object (keys : List JsString)

/-- `!!v` -/
def Json.truthy : Json → Bool
  | .null => false
  | .bool b => b
  | .number n => n.text ≠ js "0"
  | .string s => s ≠ []
  | .array _ | .object _ => true

mutual

/-- An item of a joined array: `null` is blank, the rest is `String(item)`. An object whose own
    `toString` hides the inherited one makes `join` throw. -/
def Json.joined : Json → Option JsString
  | .null => some []
  | .bool true => some (js "true")
  | .bool false => some (js "false")
  | .number n => some n.text
  | .string s => some s
  | .array items => joinComma items
  | .object keys => if js "toString" ∈ keys then none else some (js "[object Object]")

/-- `items.join(",")` -/
def joinComma : List Json → Option JsString
  | [] => some []
  | item :: items =>
    match item.joined, joinRest items with
    | some s, some rest => some (s ++ rest)
    | _, _ => none

def joinRest : List Json → Option JsString
  | [] => some []
  | item :: items =>
    match item.joined, joinRest items with
    | some s, some rest => some (comma :: (s ++ rest))
    | _, _ => none

end

/-- `list.includes(v)` for a string. -/
def includes (list : List Json) (v : JsString) : Bool :=
  list.any fun item => match item with
    | .string s => s = v
    | _ => false

/-! ### Keys -/

inductive Role where | admin | readonly
  deriving DecidableEq

/-- A row of `api_keys`; a whitelist column is null or the text of a JSON value. -/
structure ApiKeyRow where
  role : Role
  allowedSources : Option Json
  allowedAccounts : Option Json

/-- What `createKey` stores of a whitelist it is given, if it is given one. -/
def storedList (list : Option Json) : Option Json := list.filter Json.truthy

/-- The row `createKey` inserts. -/
def createKey (admin : Bool) (allowedSources allowedAccounts : Option Json) : ApiKeyRow :=
  ⟨if admin then .admin else .readonly, storedList allowedSources, storedList allowedAccounts⟩

def parseList : Option Json → Option (List Json)
  | some (.array items) => some items
  | some (.string s) => some ((parts s).map .string)
  | _ => none

/-- The value is `undefined`, `null` or a string. -/
def inWhitelistImpl (list : Option (List Json)) (val : Option (Option JsString)) (failOnMissing : Bool) :
    Bool :=
  match list, val with
  | none, _ | some [], _ => true
  | some _, none => !failOnMissing
  | some _, some none => false
  | some list, some (some v) => v ≠ [] && parts v ≠ [] && (parts v).all (includes list)

def inWhitelist (list : Option (List Json)) (val : Option JsString) : Bool :=
  inWhitelistImpl list (val.map some) false

def inWhitelistRow (list : Option (List Json)) (val : Option JsString) : Bool :=
  inWhitelistImpl list (some val) true

/-- `canAccess` of a request with these `source` and `account_id` parameters. -/
def canAccess (key : ApiKeyRow) (get : Bool) (source accountId : Option JsString) : Bool :=
  key.role = .admin || get && inWhitelist (parseList key.allowedSources) source &&
    inWhitelist (parseList key.allowedAccounts) accountId

/-- `canAccessRow` of a row with these columns. -/
def canAccessRow (key : ApiKeyRow) (source accountId : Option JsString) : Bool :=
  key.role = .admin || inWhitelistRow (parseList key.allowedSources) source &&
    inWhitelistRow (parseList key.allowedAccounts) accountId

/-- One parameter of `scopeQuery`: the joined whitelist where the parameter is absent or blank. `none`
    where `join` throws. -/
def scopeParam (list : Option (List Json)) (v : Option JsString) : Option (Option JsString) :=
  match list with
  | some (item :: items) => if JsString.truthy v then some v else (joinComma (item :: items)).map some
  | _ => some v

def scopeQuery (key : ApiKeyRow) (q : Query) : Option Query :=
  if key.role = .admin then some q
  else do
    let source ← scopeParam (parseList key.allowedSources) q.source
    let accountId ← scopeParam (parseList key.allowedAccounts) q.accountId
    some { q with source, accountId }

theorem inWhitelist_none (list : Option (List Json)) : inWhitelist list none = true := by
  rcases list with _ | _ | ⟨item, items⟩ <;> rfl

theorem inWhitelist_some {items : List Json} {s : JsString} (hne : items ≠ []) : inWhitelist (some items) (some s) = true ↔
    parts s ≠ [] ∧ ∀ p ∈ parts s, includes items p = true := by
  rcases items with _ | ⟨item, items⟩
  · exact absurd rfl hne
  · simp only [inWhitelist, inWhitelistImpl, Option.map_some, Bool.and_eq_true, decide_eq_true_eq,
      List.all_eq_true]
    constructor
    · rintro ⟨⟨-, hp⟩, hall⟩
      exact ⟨hp, hall⟩
    · rintro ⟨hp, hall⟩
      refine ⟨⟨?_, hp⟩, hall⟩
      rintro rfl
      exact hp parts_nil

theorem joinComma_strings : ∀ ids : List JsString,
    joinComma (ids.map .string) = some (List.intercalate [comma] ids) ∧
      (ids ≠ [] → joinRest (ids.map .string) = some (comma :: List.intercalate [comma] ids))
  | [] => ⟨rfl, fun h => absurd rfl h⟩
  | [id] => by simp [joinComma, joinRest, Json.joined]
  | id :: id' :: ids => by
    have hrest := (joinComma_strings (id' :: ids)).2 (List.cons_ne_nil _ _)
    rw [List.map_cons] at hrest
    constructor
    · rw [List.map_cons, List.map_cons, joinComma, hrest]
      simp [Json.joined, List.intercalate]
    · intro _
      rw [List.map_cons, List.map_cons, joinRest, hrest]
      simp [Json.joined, List.intercalate]

end OneMail.Unified
