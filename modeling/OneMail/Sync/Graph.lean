import OneMail.Sync.Imap

/-! The Microsoft Graph sync of one account folder.

    `syncFolder` is the body of the folder loop of `sync_graph` in `graph_source.py`; it works on the
    keys that `SyncState` keeps under `pop3_seen` for the folder. A `Replies` is everything one round
    is answered: the pages of the listing, which GETs of pages fail, the ImmutableId resolution, the
    MIME content of each message, and whether the upload returned. -/

namespace OneMail.Graph

open Imap (batchSize maxSingleBytes)

def maxGraphMessageScan : ℕ := 5000

def pop3SeenMax : ℕ := 2000

/-- What the sync reads of an account. -/
structure Account where
  id : String
  initialSyncLimit : ℤ

/-- A row of the listing. -/
structure Item where
  id : String
  receivedDateTime : Option String
  subject : Option String
  deriving DecidableEq

/-- What the ImmutableId resolution answers for one message. -/
structure Stable where
  id : String
  conversationId : Option String
  parentFolderId : Option String

structure GraphMessageMeta where
  id : String
  legacyId : String
  receivedAtMs : Option ℤ
  subject : Option String
  conversationId : Option String
  parentFolderId : Option String

/-- The answer to the GET of a message's MIME content. -/
inductive Mime (ρ : Type*) where
  | raises
  | failed
  | content (raw : ρ)

structure Replies (ρ : Type*) where
  pages : List (List Item)
  failing : ℕ → Bool
  immutable : Option (String → Stable)
  mime : String → Mime ρ
  uploaded : Option ℕ

/-- The functions on raw messages that the sync calls: the length of the bytes, the parser of
    timestamps, and `normalize_message` for the account and folder (`none` where it raises). -/
structure Formats (ρ ε : Type*) where
  size : ρ → ℕ
  parseMs : String → Option ℤ
  normalize : GraphMessageMeta → ρ → Option ε

inductive Event where
  | overLimit (id : String)
  | unnormalised (id : String)
  | uploaded (id : String)
  deriving DecidableEq

def graphUidKey (account : Account) (folder msgId : String) : String :=
  "graph:" ++ account.id ++ ":" ++ folder ++ ":" ++ msgId

/-! ### The seen keys -/

/-- Keys are appended in the order in which they were first seen. -/
def appendSeen (ordered : List String) (uid : String) : List String :=
  if uid ∈ ordered then ordered else ordered ++ [uid]

/-- `add_pop3_seen_many`: the oldest keys are cut off above `POP3_SEEN_MAX`. -/
def addPop3SeenMany (seen uidls : List String) : List String :=
  if uidls = [] then seen
  else
    let ordered := uidls.foldl appendSeen (seen.foldl appendSeen [])
    ordered.drop (ordered.length - pop3SeenMax)

/-! ### One round -/

variable {ρ ε : Type*}

/-- The pagination loop of `_collect_pending_graph_items`, from page `n` on: what is listed above the
    first seen key, newest first. The first sync reads one page only. -/
def collectPages (seen : List String) (key : String → String) (failing : ℕ → Bool) :
    ℕ → List (List Item) → ℕ → List Item → Option (List Item)
  | _, [], _, pending => some pending
  | n, page :: pages, scanned, pending =>
    if failing n then none
    else
      let unseen := page.takeWhile fun item => key item.id ∉ seen
      if unseen.length < page.length ∨ seen = [] then some (pending ++ unseen)
      else if pages = [] then some (pending ++ unseen)
      else if maxGraphMessageScan ≤ scanned + page.length then none
      else collectPages seen key failing (n + 1) pages (scanned + page.length) (pending ++ unseen)

/-- The stored keys after `_collect_pending_graph_items`, and the items it returns (`none` when it
    raises), oldest first. -/
structure Collected where
  seen : List String
  pending : Option (List Item)

/-- `_collect_pending_graph_items`. -/
def collectPendingGraphItems (account : Account) (folder : String) (replies : Replies ρ)
    (seen : List String) : Collected :=
  match collectPages seen (graphUidKey account folder) replies.failing 0 replies.pages 0 [] with
  | none => ⟨seen, none⟩
  | some pending =>
    if seen = [] then
      if 0 < account.initialSyncLimit ∧ account.initialSyncLimit < pending.length then
        let older := pending.drop account.initialSyncLimit.toNat
        ⟨addPop3SeenMany seen (older.map fun row => graphUidKey account folder row.id),
          some (pending.take account.initialSyncLimit.toNat).reverse⟩
      else ⟨seen, some pending.reverse⟩
    else if batchSize < pending.length then
      ⟨seen, some (pending.drop (pending.length - batchSize)).reverse⟩
    else ⟨seen, some pending.reverse⟩

/-- The loop variables of `fetch_graph_messages`. -/
structure Fetch (ρ : Type*) where
  fetched : List (GraphMessageMeta × ρ)
  oversize : List String

variable (formats : Formats ρ ε)

def messageMeta (stable : Stable) (item : Item) : GraphMessageMeta where
  id := stable.id
  legacyId := item.id
  receivedAtMs := item.receivedDateTime.bind formats.parseMs
  subject := item.subject
  conversationId := stable.conversationId
  parentFolderId := stable.parentFolderId

/-- The MIME loop: it stops at the first message whose content is not answered with 200. -/
def fetchMime (replies : Replies ρ) (immutable : String → Stable) :
    List Item → Fetch ρ → Option (Fetch ρ)
  | [], f => some f
  | item :: items, f =>
    match replies.mime item.id with
    | .raises => none
    | .failed => some f
    | .content raw =>
      if maxSingleBytes < formats.size raw then
        fetchMime replies immutable items { f with oversize := f.oversize ++ [item.id] }
      else
        fetchMime replies immutable items
          { f with fetched := f.fetched ++ [(messageMeta formats (immutable item.id) item, raw)] }

/-- `fetch_graph_messages` once items are pending. -/
def fetchGraphMessages (replies : Replies ρ) (pending : List Item) : Option (Fetch ρ) :=
  if pending = [] then some ⟨[], []⟩
  else
    match replies.immutable with
    | none => none
    | some immutable => fetchMime formats replies immutable pending ⟨[], []⟩

/-- What one turn of the folder loop leaves: the stored keys, its events, and the counts `synced` and
    `dropped` (`none` when it raises). -/
structure Synced where
  seen : List String
  events : List Event
  counts : Option (ℕ × ℕ)

/-- The body of the folder loop of `sync_graph`. -/
def syncFolder (account : Account) (folder : String) (replies : Replies ρ) (seen : List String) :
    Synced :=
  let collected := collectPendingGraphItems account folder replies seen
  match collected.pending.bind (fetchGraphMessages formats replies) with
  | none => ⟨collected.seen, [], none⟩
  | some f =>
    let dropped := f.oversize.map Event.overLimit
    let oversizeIds := f.oversize.map (graphUidKey account folder)
    if f.fetched = [] then
      ⟨addPop3SeenMany collected.seen oversizeIds, dropped, some (0, f.oversize.length)⟩
    else
      let batch := f.fetched.filter fun m => (formats.normalize m.1 m.2).isSome
      let bad := f.fetched.filter fun m => (formats.normalize m.1 m.2).isNone
      let dropped := dropped ++ bad.map fun m => .unnormalised m.1.legacyId
      let processedIds := oversizeIds ++ f.fetched.map fun m => graphUidKey account folder m.1.legacyId
      let counts := (replies.uploaded.getD 0, f.oversize.length + bad.length)
      if batch = [] then
        ⟨addPop3SeenMany collected.seen processedIds, dropped, some (0, counts.2)⟩
      else if replies.uploaded = none then ⟨collected.seen, dropped, none⟩
      else
        ⟨addPop3SeenMany collected.seen processedIds,
          dropped ++ batch.map fun m => .uploaded m.1.legacyId, some counts⟩

end OneMail.Graph
