import OneMail.Js.Json
import OneMail.Unified.Auth

/-! The filters as the text that is sent to SQLite (`unified_query.ts`, `auth_scope.ts`).

    A filter is a WHERE text with placeholders and the values bound to them, in order. `Shape` lists the
    conjuncts such a text is made of, as the source spells them, and `selected` reads a text back and
    says which rows SQLite selects by it. -/

namespace OneMail.SqlFilter
open JsString Unified

/-- A bound value: a text, the number a text converts to (`Number(text)`), a user's id, or nothing. -/
inductive Param where
  | text (s : JsString)
  | number (s : JsString)
  | id (n : ℤ)
  | undefined
  deriving DecidableEq

structure EmailFilter where
  «where» : JsString
  params : List Param

/-! ### Conjuncts -/

/-- The conjuncts of the filters; `isInJson` is what `boundedEmailFilter` makes of a list. -/
inductive Shape where
  | always
  | nothing
  | never
  | eq (col : Col)
  | isIn (col : Col) (n : ℕ)
  | isInJson (col : Col)
  | cfRouting
  | toAddrLike
  | isRead (flag : Bool)
  | isStarred (flag : Bool)
  | hasAttachments (flag : Bool)
  | since
  | until'
  | text
  | owned
  | toAddrIs
  deriving DecidableEq

def colName : Col → JsString
  | .source => js "source"
  | .accountId => js "account_id"
  | .toAddr => js "to_addr"

/-- `parts.map(() => "?").join(",")` -/
def placeholders (n : ℕ) : JsString := List.intercalate (js ",") (List.replicate n (js "?"))

/-- A text of several lines. -/
def lines (ls : List JsString) : JsString := List.intercalate (js "\n") ls

def attachedWhere : JsString := lines [
  js "(",
  js "            has_attachments = 1",
  js "            OR (",
  js "                has_attachments IS NULL",
  js "                AND CASE WHEN json_valid(attachments_json) THEN",
  js "                    CASE WHEN json_type(attachments_json) = 'array'",
  js "                        THEN json_array_length(attachments_json) > 0",
  js "                        ELSE 0",
  js "                    END",
  js "                ELSE 0 END",
  js "            )",
  js "        )"]

def unattachedWhere : JsString := lines [
  js "(",
  js "            has_attachments = 0",
  js "            OR (",
  js "                has_attachments IS NULL",
  js "                AND CASE WHEN json_valid(attachments_json) THEN",
  js "                    CASE WHEN json_type(attachments_json) = 'array'",
  js "                        THEN json_array_length(attachments_json) = 0",
  js "                        ELSE 1",
  js "                    END",
  js "                ELSE 1 END",
  js "            )",
  js "        )"]

/-- `USER_OWNERSHIP_WHERE` -/
def userOwnershipWhere : JsString := lines [
  js "(",
  js "    emails.account_id IN (",
  js "        SELECT uma.id FROM user_mail_accounts uma",
  js "        WHERE uma.user_id = ?",
  js "    )",
  js "    OR (",
  js "        emails.source = 'cf_routing'",
  js "        AND emails.to_addr IN (",
  js "            SELECT a.name FROM users_address ua",
  js "            JOIN address a ON a.id = ua.address_id",
  js "            WHERE ua.user_id = ?",
  js "              AND (a.source_meta IS NULL OR a.source_meta != 'external')",
  js "        )",
  js "    )",
  js ")"]

def Shape.sql : Shape → JsString
  | .always => js "1=1"
  | .nothing => js "1=0"
  | .never => js "0=1"
  | .eq col => colName col ++ js " = ?"
  | .isIn col n => colName col ++ js " IN (" ++ placeholders n ++ js ")"
  | .isInJson col => colName col ++ js " IN (SELECT value FROM json_each(?))"
  | .cfRouting => js "source = 'cf_routing'"
  | .toAddrLike => js "to_addr LIKE ?"
  | .isRead true => js "is_read = 1"
  | .isRead false => js "is_read = 0"
  | .isStarred true => js "is_starred = 1"
  | .isStarred false => js "(is_starred IS NULL OR is_starred = 0)"
  | .hasAttachments true => attachedWhere
  | .hasAttachments false => unattachedWhere
  | .since => js "received_at >= ?"
  | .until' => js "received_at <= ?"
  | .text => js "(subject LIKE ? OR from_addr LIKE ? OR text_body LIKE ?)"
  | .owned => userOwnershipWhere
  | .toAddrIs => js "emails.to_addr = ?"

/-- The placeholders of a conjunct. -/
def Shape.arity : Shape → ℕ
  | .eq _ | .isInJson _ | .toAddrLike | .since | .until' | .toAddrIs => 1
  | .isIn _ n => n
  | .owned => 2
  | .text => 3
  | _ => 0

/-- `clauses.join(" AND ")` -/
def conjunction (clauses : List Shape) : JsString := List.intercalate (js " AND ") (clauses.map Shape.sql)

/-! ### The filters of a request -/

/-- A clause that is pushed, with what is pushed on the parameters. -/
abbrev Pushed := Shape × List Param

def inClause (col : Col) (val : JsString) : List Pushed :=
  match parts val with
  | [] => []
  | [part] => [(.eq col, [.text part])]
  | ps => [(.isIn col ps.length, ps.map .text)]

/-- `if (v) …` on a parameter. -/
def given (v : Option JsString) (push : JsString → List Pushed) : List Pushed :=
  match v with
  | some (c :: cs) => push (c :: cs)
  | _ => []

/-- `=== "1"`, else `=== "0"`. -/
def flag (v : Option JsString) (shape : Bool → Shape) : List Pushed :=
  if v = some (js "1") then [(shape true, [])] else if v = some (js "0") then [(shape false, [])] else []

/-- The clauses after `1=1`; `none` where the domain is refused. -/
def pushed (q : Query) : Option (List Pushed) :=
  let lists := given q.source (inClause .source) ++ given q.accountId (inClause .accountId) ++
    given q.toAddr (inClause .toAddr)
  let rest := flag q.unread (fun f => .isRead !f) ++ flag q.starred .isStarred ++
    flag q.hasAttachments .hasAttachments ++
    given q.since (fun v => [(.since, [.number v])]) ++ given q.until' (fun v => [(.until', [.number v])]) ++
    given q.q (fun v =>
      let like := js "%" ++ v ++ js "%"
      [(.text, [.text like, .text like, .text like])])
  match q.domain with
  | some (c :: cs) => (checkDomain (c :: cs)).map fun d =>
    lists ++ [(.cfRouting, []), (.toAddrLike, [.text (js "%@" ++ d)])] ++ rest
  | _ => some (lists ++ rest)

def buildEmailFilters (q : Query) : EmailFilter :=
  match pushed q with
  | none => ⟨Shape.nothing.sql, []⟩
  | some clauses => ⟨conjunction (.always :: clauses.map (·.1)), clauses.flatMap (·.2)⟩

/-- `c.get("unifiedUserAuth")`, `c.get("addressAuth")` and `c.get("apiKey")`. -/
structure Context where
  unifiedUserAuth : Option (Bool × Option ℤ)
  addressAuth : Option JsString
  apiKey : Option ApiKeyRow

/-- `!!userId` -/
def givenId (userId : Option ℤ) : Option ℤ := userId.filter (· ≠ 0)

/-- The filter of a query with the caller's scope; `none` where it throws. -/
def resolveScopedEmailFilter (lower : JsString → JsString) (c : Context) (q : Query) : Option EmailFilter :=
  let refused : EmailFilter := ⟨Shape.never.sql, []⟩
  let base := buildEmailFilters q
  let and (extra : Shape) (params : List Param) : EmailFilter :=
    ⟨js "(" ++ base.where ++ js ") AND " ++ extra.sql, base.params ++ params⟩
  match c.unifiedUserAuth, c.addressAuth, c.apiKey with
  | some (isAdmin, userId), _, _ =>
    some (if truthy q.domain ∧ isAdmin = false then refused
      else if isAdmin then base
      else match givenId userId with
        | none => refused
        | some n => and .owned [.id n, .id n])
  | none, some address, _ =>
    some (if truthy q.domain then refused
      else if truthy q.addr ∧ q.addr.map (fun v => lower (trim v)) ≠ some (lower address) then refused
      else and .toAddrIs [.text (lower address)])
  | none, none, none => some refused
  | none, none, some key =>
    if truthy q.domain ∧ key.role ≠ .admin then some refused else (scopeQuery key q).map buildEmailFilters

/-! ### What a text selects -/

/-- What the ownership subqueries find for a user. -/
structure Tables where
  accounts : ℤ → List JsString
  addresses : ℤ → List JsString

/-- A text column compared with a bound value; numbers are never bound to one. -/
def Param.equals (column : Option JsString) : Param → Bool
  | .text s => column = some s
  | _ => false

/-- The value of an element, where it is a text. -/
def textOf : Json.Value → Option JsString
  | .string s => some s
  | _ => none

/-- `json_each(?)`: the texts of the bound array. -/
def Param.jsonEach : Param → List JsString
  | .text s =>
    match Json.parse s with
    | some (.array values) => values.filterMap textOf
    | _ => []
  | _ => []

/-- One conjunct with the values of its placeholders. -/
def Shape.holds (e : Engine) (t : Tables) (row : EmailRow) : Shape → List Param → Bool
  | .always, _ => true
  | .nothing, _ | .never, _ => false
  | .eq col, [v] => v.equals (row.col col)
  | .isIn col _, vs => vs.any (·.equals (row.col col))
  | .isInJson col, [v] => v.jsonEach.any fun s => row.col col = some s
  | .cfRouting, _ => row.source = some (js "cf_routing")
  | .toAddrLike, [.text pattern] => row.toAddr.any (e.like pattern)
  | .isRead flag, _ => row.isRead = if flag then 1 else 0
  | .isStarred true, _ => row.isStarred = some 1
  | .isStarred false, _ => row.isStarred = none || row.isStarred = some 0
  | .hasAttachments flag, _ => hasAttachmentsHolds row flag
  | .since, [.number v] => e.atLeast v row.receivedAt
  | .until', [.number v] => e.atMost v row.receivedAt
  | .text, [.text a, .text b, .text c] =>
    row.subject.any (e.like a) || row.fromAddr.any (e.like b) || row.textBody.any (e.like c)
  | .owned, [.id a, .id b] =>
    row.accountId.any (· ∈ t.accounts a) || row.source = some (js "cf_routing") && row.toAddr.any (· ∈ t.addresses b)
  | .toAddrIs, [v] => v.equals row.toAddr
  | _, _ => false

/-- A conjunction takes its values from left to right; SQLite refuses a statement whose placeholders
    and values do not match one to one. -/
def holdsAll (e : Engine) (t : Tables) (row : EmailRow) : List Shape → List Param → Option Bool
  | [], [] => some true
  | [], _ => none
  | s :: ss, ps =>
    if s.arity ≤ ps.length then (holdsAll e t row ss (ps.drop s.arity)).map (s.holds e t row (ps.take s.arity) && ·)
    else none

/-- The conjuncts with a fixed text. -/
def fixedShapes : List Shape :=
  [.always, .nothing, .never, .eq .source, .eq .accountId, .eq .toAddr, .isInJson .source, .isInJson .accountId,
    .isInJson .toAddr, .cfRouting, .toAddrLike, .isRead true, .isRead false, .isStarred true, .isStarred false,
    .hasAttachments true, .hasAttachments false, .since, .until', .text, .owned, .toAddrIs]

/-- How many placeholders the list at the beginning of a text has. -/
def listLength (col : Col) (text : JsString) : ℕ :=
  ((text.drop (colName col ++ js " IN (").length).takeWhile (· ≠ 0x29)).count 0x3F

/-- The conjunct a text begins with, and what follows it. -/
def readShape (text : JsString) : Option (Shape × JsString) :=
  let lists := [Col.source, .accountId, .toAddr].map fun col => Shape.isIn col (listLength col text)
  ((fixedShapes ++ lists).find? fun s => s.sql.isPrefixOf text).map fun s => (s, text.drop s.sql.length)

/-- Conjuncts with `AND` between them, some of them in parentheses; `n` bounds the steps. -/
def readConditions : ℕ → JsString → Option (List Shape × JsString)
  | 0, _ => none
  | n + 1, text => do
    let (first, rest) ← match readShape text, text with
      | some (s, rest), _ => some ([s], rest)
      | none, 0x28 :: inner =>
        match readConditions n inner with
        | some (ss, 0x29 :: rest) => some (ss, rest)
        | _ => none
      | none, _ => none
    if (js " AND ").isPrefixOf rest then
      let (more, rest) ← readConditions n (rest.drop 5)
      some (first ++ more, rest)
    else some (first, rest)

/-- Whether SQLite selects a row by a filter; `none` where it refuses the statement. -/
def selected (e : Engine) (t : Tables) (f : EmailFilter) (row : EmailRow) : Option Bool :=
  match readConditions (f.where.length + 1) f.where with
  | some (shapes, []) => holdsAll e t row shapes f.params
  | _ => none

/-- The placeholders of a WHERE text. -/
def marks (text : JsString) : ℕ := text.count 0x3F

end OneMail.SqlFilter
