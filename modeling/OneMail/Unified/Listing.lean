import OneMail.Lib.Table
import OneMail.Unified.Merge

/-! The list queries of one database (`unified_list.ts`, `cursor.ts`, `unified_sql.ts`).

    `executeCursorList` reads one row more than it returns and gives the cursor of its last row;
    `executeUnboundedOffsetList` reads from an offset. A cursor is base64url over JSON text, which loses
    nothing; what can go wrong with it are the bounds on its id and on the length of the text, so a
    cursor stands here for the text that encodes it. -/

namespace OneMail.Unified
open JsString Ordered

/-! ### Cursors -/

structure EmailCursor where
  sortKey : ℤ
  id : JsString
  deriving DecidableEq

def MAX_CURSOR_LENGTH : ℕ := 512
def MAX_ID_LENGTH : ℕ := 256

def isSafeInteger (n : ℤ) : Bool := n.natAbs < 2 ^ 53

def validateCursor (c : EmailCursor) : Option EmailCursor :=
  if isSafeInteger c.sortKey = true ∧ c.id ≠ [] ∧ c.id.length ≤ MAX_ID_LENGTH then some c else none

def encodeEmailCursor (sortKey : ℤ) (id : JsString) : Option EmailCursor := validateCursor ⟨sortKey, id⟩

/-- The UTF-8 bytes of a code unit that `JSON.stringify` writes: quotes, backslashes and the short
    control escapes take two, other controls and lone surrogates a `\uXXXX`. -/
def unitBytes (c : UInt16) : ℕ :=
  if c = 0x22 ∨ c = 0x5C ∨ (0x8 ≤ c ∧ c ≤ 0xD ∧ c ≠ 0xB) then 2
  else if c < 0x20 ∨ (0xD800 ≤ c ∧ c < 0xE000) then 6
  else if c < 0x80 then 1
  else if c < 0x800 then 2 else 3

def idBytes : JsString → ℕ
  | [] => 0
  | [c] => unitBytes c
  | c :: d :: rest =>
    if 0xD800 ≤ c ∧ c < 0xDC00 ∧ 0xDC00 ≤ d ∧ d < 0xE000 then 4 + idBytes rest
    else unitBytes c + idBytes (d :: rest)

/-- The bytes of `{"v":1,"sortKey":…,"id":"…"}`. -/
def EmailCursor.bytes (c : EmailCursor) : ℕ :=
  26 + (if c.sortKey < 0 then 1 else 0) + (Nat.toDigits 10 c.sortKey.natAbs).length + idBytes c.id

/-- The length of the base64url text without its padding. -/
def EmailCursor.length (c : EmailCursor) : ℕ := (8 * c.bytes + 5) / 6

def decodeEmailCursor (c : EmailCursor) : Option EmailCursor :=
  if c.length ≤ MAX_CURSOR_LENGTH then validateCursor c else none

/-! ### Queries -/

/-- The clauses' engine, and `a < b` on TEXT in the BINARY collation. -/
structure Database extends Engine where
  idLt : JsString → JsString → Bool

/-- `COALESCE(internal_date, received_at)` -/
def EmailRow.date (row : EmailRow) : ℤ := row.internalDate.getD row.receivedAt

/-- UNIFIED_EMAIL_SELECT -/
def listRow (row : EmailRow) : ListRow :=
  { id := row.id, source := row.source, accountId := row.accountId, fromAddr := row.fromAddr,
    toAddr := row.toAddr, subject := row.subject, receivedAt := row.date,
    internalDate := row.internalDate, isRead := row.isRead, isStarred := row.isStarred }

/-- UNIFIED_EMAIL_ORDER: `a` may stand before `b`. -/
def orderLe (db : Database) (a b : EmailRow) : Prop :=
  b.date < a.date ∨ a.date = b.date ∧ db.idLt a.id b.id = false

instance (db : Database) : DecidableRel (orderLe db) :=
  fun a b => inferInstanceAs (Decidable (b.date < a.date ∨ a.date = b.date ∧ db.idLt a.id b.id = false))

def cursorPredicate (db : Database) (c : EmailCursor) (row : EmailRow) : Bool :=
  row.date < c.sortKey || row.date = c.sortKey && db.idLt row.id c.id

inductive ListError where
  | invalidLimit | invalidOffset | invalidCursor | invalidSortIdentity
  deriving DecidableEq

structure ListResult where
  results : List ListRow
  count : Option ℕ
  nextCursor : Option EmailCursor
  hasMore : Bool

/-- `SELECT count(*)` -/
def countWhere (db : Database) (store : List EmailRow) (clauses : List Clause) : ℕ :=
  (store.filter (selects db.toEngine clauses)).length

def executeUnboundedOffsetList (db : Database) (store : List EmailRow) (clauses : List Clause)
    (limit offset : ℕ) (withCount : Bool) : Except ListError ListResult :=
  if limit < 1 ∨ 600 < limit then .error .invalidLimit
  else if 500 < offset then .error .invalidOffset
  else
    let results := (((Table.selectTop (selects db.toEngine clauses) (orderLe db) (offset + limit) store).drop
      offset).map listRow)
    .ok ⟨results, if withCount then some (countWhere db store clauses) else none, none,
      limit ≤ results.length⟩

/-- The cursor of the last row of a page. -/
def cursorAfter (page : List ListRow) : Except ListError (Option EmailCursor) :=
  match page.getLast? with
  | none => .ok none
  | some last =>
    if isSafeInteger last.receivedAt = false ∨ last.id = [] then .error .invalidSortIdentity
    else match encodeEmailCursor last.receivedAt last.id with
      | none => .error .invalidCursor
      | some c => .ok (some c)

/-- The predicate of a cursor, when one is given; `none` where it cannot be decoded. -/
def pagePredicate (db : Database) (cursor : Option EmailCursor) : Option (EmailRow → Bool) :=
  match cursor with
  | none => some fun _ => true
  | some c => (decodeEmailCursor c).map (cursorPredicate db)

def executeCursorList (db : Database) (store : List EmailRow) (clauses : List Clause) (limit : ℕ)
    (cursor : Option EmailCursor) (withCount : Bool) : Except ListError ListResult :=
  if limit < 1 ∨ 600 < limit then .error .invalidLimit
  else match pagePredicate db cursor with
    | none => .error .invalidCursor
    | some inPage =>
      let rows := (Table.selectTop (fun row => selects db.toEngine clauses row && inPage row) (orderLe db)
        (limit + 1) store).map listRow
      match if limit < rows.length then cursorAfter (rows.take limit) else .ok none with
      | .error error => .error error
      | .ok nextCursor =>
        let count := if cursor.isSome then some 0
          else if withCount then some (countWhere db store clauses) else none
        .ok ⟨rows.take limit, count, nextCursor, limit < rows.length⟩

/-! ### What a query returns -/

/-- SQLite orders the ids as JavaScript does. -/
def IdsAgree (db : Database) (ids : List JsString) : Prop :=
  ∀ a ∈ ids, ∀ b ∈ ids, db.idLt a b = true ↔ a < b

/-- The row can be the end of a page: its cursor is encoded, and its text is accepted again. -/
def Cursorable (row : ListRow) : Prop :=
  decodeEmailCursor ⟨row.receivedAt, row.id⟩ = some ⟨row.receivedAt, row.id⟩

/-- The rows that a store has for a filter, in the list order. -/
def listed (db : Database) (store : List EmailRow) (clauses : List Clause) : List ListRow :=
  sortBy rowKey ((store.filter (selects db.toEngine clauses)).map listRow)

def cursorKey (c : EmailCursor) : Lex (ℤᵒᵈ × JsStringᵒᵈ) :=
  toLex (OrderDual.toDual c.sortKey, OrderDual.toDual c.id)

/-- The rows after a cursor. -/
def after (cursor : Option EmailCursor) (rows : List ListRow) : List ListRow :=
  rows.filter fun row => cursor.all fun c => cursorKey c < rowKey row

variable {db : Database} {store : List EmailRow} {clauses : List Clause} {ids : List JsString}
  {cursor : Option EmailCursor} {limit : ℕ}

@[simp] theorem after_none (rows : List ListRow) : after none rows = rows := by simp [after]

theorem Cursorable.encode {row : ListRow} (h : Cursorable row) :
    encodeEmailCursor row.receivedAt row.id = some ⟨row.receivedAt, row.id⟩ := by
  unfold Cursorable decodeEmailCursor at h
  split at h
  · exact h
  · cases h

theorem Cursorable.valid {row : ListRow} (h : Cursorable row) :
    isSafeInteger row.receivedAt = true ∧ row.id ≠ [] := by
  have henc := h.encode
  unfold encodeEmailCursor validateCursor at henc
  split at henc
  · rename_i hvalid
    exact ⟨hvalid.1, hvalid.2.1⟩
  · cases henc

theorem keys_nodup {rows : List EmailRow} (h : (rows.map (·.id)).Nodup) :
    ((rows.map listRow).map rowKey).Nodup := by
  rw [List.map_map]
  refine List.Nodup.of_map (fun key => OrderDual.ofDual (ofLex key).2) ?_
  rw [List.map_map]
  exact h

theorem keys_nodup_filter (h : (store.map (·.id)).Nodup) (p : EmailRow → Bool) :
    (((store.filter p).map listRow).map rowKey).Nodup :=
  keys_nodup (h.sublist (List.filter_sublist.map _))

theorem listed_ascending (h : (store.map (·.id)).Nodup) : Ascending rowKey (listed db store clauses) :=
  sortBy_ascending (keys_nodup_filter h _)

theorem mem_listed {row : ListRow} : row ∈ listed db store clauses ↔
    ∃ email ∈ store, selects db.toEngine clauses email = true ∧ listRow email = row := by
  simp only [listed, mem_sortBy, List.mem_map, List.mem_filter, and_assoc]

theorem orderLe_iff {a b : EmailRow} (hids : IdsAgree db ids) (ha : a.id ∈ ids) (hb : b.id ∈ ids) :
    orderLe db a b ↔ rowKey (listRow a) ≤ rowKey (listRow b) := by
  have hid : db.idLt a.id b.id = false ↔ b.id ≤ a.id := by
    rw [← Bool.not_eq_true, hids _ ha _ hb, not_lt]
  simp only [orderLe, rowKey, listRow, Prod.Lex.toLex_le_toLex, OrderDual.toDual_lt_toDual,
    OrderDual.toDual_inj, OrderDual.toDual_le_toDual, hid]

theorem cursorPredicate_iff {c : EmailCursor} {row : EmailRow} (hids : IdsAgree db ids) (hc : c.id ∈ ids)
    (hrow : row.id ∈ ids) : cursorPredicate db c row = true ↔ cursorKey c < rowKey (listRow row) := by
  simp only [cursorPredicate, Bool.or_eq_true, Bool.and_eq_true, decide_eq_true_eq, hids _ hrow _ hc,
    cursorKey, rowKey, listRow, Prod.Lex.toLex_lt_toLex, OrderDual.toDual_lt_toDual, OrderDual.toDual_inj,
    @eq_comm _ c.sortKey]

/-- The page that the database reads is the first rows of the list after the cursor. -/
theorem selectTop_eq (clauses : List Clause) (cursor : Option EmailCursor) (hids : IdsAgree db ids) (hstore : ∀ row ∈ store, row.id ∈ ids)
    (hnodup : (store.map (·.id)).Nodup) {inPage : EmailRow → Bool}
    (hpage : ∀ row ∈ store, inPage row = true ↔ ∀ c, cursor = some c → cursorKey c < rowKey (listRow row))
    (n : ℕ) :
    (Table.selectTop (fun row => selects db.toEngine clauses row && inPage row) (orderLe db) n store).map
      listRow = (after cursor (listed db store clauses)).take n := by
  have hfilter : (store.filter fun row => selects db.toEngine clauses row && inPage row).map listRow =
      after cursor ((store.filter (selects db.toEngine clauses)).map listRow) := by
    rw [after, List.filter_map, List.filter_filter]
    refine congrArg (List.map listRow) (List.filter_congr fun row hrow => ?_)
    rw [Bool.and_comm, Bool.eq_iff_iff, Bool.and_eq_true, Bool.and_eq_true, hpage row hrow]
    rcases cursor with _ | c <;> simp
  have hsort := List.map_insertionSort (r := orderLe db) (s := fun a b => rowKey a ≤ rowKey b) listRow
    (store.filter fun row => selects db.toEngine clauses row && inPage row)
    fun a ha b hb => orderLe_iff hids (hstore a (List.mem_of_mem_filter ha))
      (hstore b (List.mem_of_mem_filter hb))
  rw [Table.selectTop, List.map_take, hsort, hfilter, after, after, listed,
    ← sortBy_filter (keys_nodup_filter hnodup _)]
  rfl

theorem cursorAfter_ok {page : List ListRow} (h : ∀ row ∈ page, Cursorable row) :
    cursorAfter page = .ok (page.getLast?.map fun last => ⟨last.receivedAt, last.id⟩) := by
  unfold cursorAfter
  rcases hlast : page.getLast? with _ | last
  · rfl
  · have hok := h last (List.mem_of_getLast? hlast)
    have hvalid := hok.valid
    simp only [hvalid.1, hvalid.2, hok.encode, Bool.true_eq_false, or_self, if_false, Option.map_some]

/-- A cursor query answers with the next page of the list. -/
theorem executeCursorList_ok (hids : IdsAgree db ids) (hstore : ∀ row ∈ store, row.id ∈ ids)
    (hnodup : (store.map (·.id)).Nodup) (hrows : ∀ row ∈ listed db store clauses, Cursorable row)
    (hlimit : 1 ≤ limit ∧ limit ≤ 600)
    (hcursor : ∀ c, cursor = some c → decodeEmailCursor c = some c ∧ c.id ∈ ids) (withCount : Bool) :
    ∃ count next, executeCursorList db store clauses limit cursor withCount =
      .ok ⟨(after cursor (listed db store clauses)).take limit, count, next,
        limit < (after cursor (listed db store clauses)).length⟩ ∧
      ∀ n, count = some n → n ≤ store.length := by
  obtain ⟨inPage, hpred, hpage⟩ : ∃ inPage, pagePredicate db cursor = some inPage ∧ ∀ row ∈ store,
      inPage row = true ↔ ∀ c, cursor = some c → cursorKey c < rowKey (listRow row) := by
    rcases cursor with _ | c
    · exact ⟨_, rfl, fun row _ => by simp⟩
    · obtain ⟨hdecode, hid⟩ := hcursor c rfl
      refine ⟨cursorPredicate db c, by rw [pagePredicate, hdecode]; rfl, fun row hrow => ?_⟩
      rw [cursorPredicate_iff hids hid (hstore row hrow)]
      simp
  have hselect := selectTop_eq clauses cursor hids hstore hnodup hpage (limit + 1)
  rw [executeCursorList, if_neg (by omega), hpred]
  simp only [hselect, List.take_take, List.length_take, show min limit (limit + 1) = limit by omega]
  have hmore : (limit < min (limit + 1) (after cursor (listed db store clauses)).length) ↔
      limit < (after cursor (listed db store clauses)).length := by omega
  have hpageOk : ∀ row ∈ (after cursor (listed db store clauses)).take limit, Cursorable row :=
    fun row hrow => hrows row (List.mem_of_mem_filter (List.mem_of_mem_take hrow))
  simp only [hmore, cursorAfter_ok hpageOk]
  split
  · rename_i herror
    split at herror <;> cases herror
  · refine ⟨_, _, rfl, fun n hn => ?_⟩
    split at hn
    · cases hn
      exact Nat.zero_le _
    · split at hn
      · cases hn
        exact List.length_filter_le _ _
      · cases hn

/-- An offset query answers with a cut of the list. -/
theorem executeUnboundedOffsetList_ok (clauses : List Clause) (hids : IdsAgree db ids) (hstore : ∀ row ∈ store, row.id ∈ ids)
    (hnodup : (store.map (·.id)).Nodup) (hlimit : 1 ≤ limit ∧ limit ≤ 600) (withCount : Bool) :
    ∃ result, executeUnboundedOffsetList db store clauses limit 0 withCount = .ok result ∧
      result.results = (listed db store clauses).take limit := by
  refine ⟨_, by rw [executeUnboundedOffsetList, if_neg (by omega), if_neg (by omega)], ?_⟩
  have hpage : ∀ row ∈ store, (fun _ => true : EmailRow → Bool) row = true ↔
      ∀ c, (none : Option EmailCursor) = some c → cursorKey c < rowKey (listRow row) := fun row _ => by simp
  have hselect := selectTop_eq clauses none hids hstore hnodup hpage limit
  simpa using hselect

end OneMail.Unified
