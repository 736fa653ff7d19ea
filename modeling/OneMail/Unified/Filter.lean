import OneMail.Js.JsString

/-! Email rows, query maps and the filters built from them (`unified_query.ts`).

    `buildEmailFilters` writes one SQL clause for each parameter it finds; a row is selected when every
    clause holds of it. What the clauses leave to the database (`LIKE`, and the comparison with a bound
    `Number(…)`) is an `Engine`. -/

namespace OneMail.Unified
open JsString

/-- The columns of `emails` that the list endpoints look at. -/
structure EmailRow where
  id : JsString
  source : Option JsString
  accountId : Option JsString
  toAddr : Option JsString
  fromAddr : Option JsString
  subject : Option JsString
  textBody : Option JsString
  receivedAt : ℤ
  internalDate : Option ℤ
  isRead : ℤ
  isStarred : Option ℤ
  hasAttachments : Option ℤ
  /-- The length of `attachments_json`, when that is a JSON array. -/
  attachmentCount : Option ℕ
  deriving DecidableEq

/-- A query map, as far as the filters read it. -/
structure Query where
  source : Option JsString
  accountId : Option JsString
  toAddr : Option JsString
  addr : Option JsString
  domain : Option JsString
  unread : Option JsString
  starred : Option JsString
  hasAttachments : Option JsString
  since : Option JsString
  until' : Option JsString
  q : Option JsString
  deriving DecidableEq

def Query.empty : Query := ⟨none, none, none, none, none, none, none, none, none, none, none⟩

/-- A column that is filtered by a list of values. -/
inductive Col where | source | accountId | toAddr
  deriving DecidableEq

def EmailRow.col (row : EmailRow) : Col → Option JsString
  | .source => row.source
  | .accountId => row.accountId
  | .toAddr => row.toAddr

/-- A clause of the WHERE, with the values bound to it. -/
inductive Clause where
  | never
  | eq (col : Col) (value : JsString)
  | isIn (col : Col) (values : List JsString)
  | cfRouting
  | toAddrLike (pattern : JsString)
  | isRead (flag : Bool)
  | isStarred (flag : Bool)
  | hasAttachments (flag : Bool)
  | since (number : JsString)
  | until' (number : JsString)
  | text (pattern : JsString)
  | owned (accounts addresses : List JsString)
  | notRemote (accounts : List JsString)
  deriving DecidableEq

/-- What SQLite makes of a pattern, and of a column compared with `Number(text)`. -/
structure Engine where
  like : JsString → JsString → Bool
  atLeast : JsString → ℤ → Bool
  atMost : JsString → ℤ → Bool

/-- Rows from before the flag's migration fall back on the attachment metadata. -/
def hasAttachmentsHolds (row : EmailRow) (flag : Bool) : Bool :=
  match row.hasAttachments, flag with
  | some n, true => n = 1
  | some n, false => n = 0
  | none, true => row.attachmentCount.any (0 < ·)
  | none, false => row.attachmentCount.all (· = 0)

def Clause.holds (e : Engine) (row : EmailRow) : Clause → Bool
  | .never => false
  | .eq col value => row.col col = some value
  | .isIn col values => values.any fun value => row.col col = some value
  | .cfRouting => row.source = some (js "cf_routing")
  | .toAddrLike pattern => row.toAddr.any (e.like pattern)
  | .isRead flag => row.isRead = if flag then 1 else 0
  | .isStarred true => row.isStarred = some 1
  | .isStarred false => row.isStarred = none || row.isStarred = some 0
  | .hasAttachments flag => hasAttachmentsHolds row flag
  | .since number => e.atLeast number row.receivedAt
  | .until' number => e.atMost number row.receivedAt
  | .text pattern =>
    row.subject.any (e.like pattern) || row.fromAddr.any (e.like pattern) ||
      row.textBody.any (e.like pattern)
  | .owned accounts addresses =>
    row.accountId.any (· ∈ accounts) || row.source = some (js "cf_routing") && row.toAddr.any (· ∈ addresses)
  | .notRemote accounts =>
    row.source = some (js "cf_routing") || row.accountId.all (· ∉ accounts)

/-- `inClause`: one value, several, or no clause when nothing is left of the list. -/
def inClause (col : Col) (value : JsString) : List Clause :=
  match parts value with
  | [] => []
  | [part] => [.eq col part]
  | values => [.isIn col values]

/-- `if (v) …` on a parameter. -/
def given (v : Option JsString) (clauses : JsString → List Clause) : List Clause :=
  match v with
  | some (c :: cs) => clauses (c :: cs)
  | _ => []

/-- `=== "1"`, else `=== "0"`. -/
def flagClause (v : Option JsString) (clause : Bool → Clause) : List Clause :=
  if v = some (js "1") then [clause true] else if v = some (js "0") then [clause false] else []

/-- `/^[a-z0-9.-]+$/` -/
def isDomainChar (c : UInt16) : Bool :=
  (0x61 ≤ c && c ≤ 0x7A) || (0x30 ≤ c && c ≤ 0x39) || c = 0x2E || c = 0x2D

/-- The value `q.domain` is compared as; `none` when it is no domain. -/
def checkDomain (value : JsString) : Option JsString :=
  let d := toLowerCase (trim value)
  if d ≠ [] ∧ d.all isDomainChar = true ∧ 0x2E ∈ d then some d else none

def domainClauses (value : JsString) : List Clause :=
  match checkDomain value with
  | none => [.never]
  | some d => [.cfRouting, .toAddrLike (js "%@" ++ d)]

def buildEmailFilters (q : Query) : List Clause :=
  given q.source (inClause .source) ++
  given q.accountId (inClause .accountId) ++
  given q.toAddr (inClause .toAddr) ++
  given q.domain domainClauses ++
  -- `unread = 1` asks for `is_read = 0`
  flagClause q.unread (fun flag => .isRead !flag) ++
  flagClause q.starred .isStarred ++
  flagClause q.hasAttachments .hasAttachments ++
  given q.since (fun v => [.since v]) ++
  given q.until' (fun v => [.until' v]) ++
  given q.q (fun v => [.text (js "%" ++ v ++ js "%")])

/-- The rows a filter selects. -/
def selects (e : Engine) (clauses : List Clause) (row : EmailRow) : Bool := clauses.all (·.holds e row)

variable {e : Engine} {row : EmailRow}

theorem selects_append (a b : List Clause) :
    selects e (a ++ b) row = (selects e a row && selects e b row) := List.all_append

/-- A list parameter restricts its column to its parts, and not at all when it has none. -/
theorem selects_inClause {col : Col} {value : JsString} : selects e (inClause col value) row = true ↔
    parts value = [] ∨ ∃ part ∈ parts value, row.col col = some part := by
  unfold inClause
  rcases hp : parts value with _ | ⟨p, _ | ⟨p', ps⟩⟩
  · simp [selects]
  · simp [selects, Clause.holds]
  · simp [selects, Clause.holds]

theorem selects_given {col : Col} {v : Option JsString} :
    selects e (given v (inClause col)) row = true ↔
      parts (v.getD []) = [] ∨ ∃ part ∈ parts (v.getD []), row.col col = some part := by
  rcases v with _ | _ | ⟨c, cs⟩
  · simp [given, selects]
  · simp [given, selects]
  · exact selects_inClause

end OneMail.Unified
