import Mathlib
import OneMail.Lib.Ordered
import OneMail.Lib.Paging
import OneMail.Lib.Recency

/-! The mailbox that the IMAP proxy serves over the mail API.

    A `SimpleMailbox` keeps for one session the ids of the backend's mails as UIDs, in ascending order:
    the position in this index is the sequence number. The index is built from the whole listing, a
    hundred mails at a time; `STATUS` and `FETCH` build it again when the backend's count of mails is
    not the one it was built with, `STORE` and `SEARCH` take it as it is. A `FETCH` reads the mails it
    lacks fifty at a time into a cache of bounded size and answers from that cache. The reading of a
    row into a message is a parameter; a row that it cannot read is skipped. -/

namespace OneMail.Proxy

structure Settings (ρ μ : Type) where
  imapCacheSize : ℕ
  imapCacheSize_pos : 0 < imapCacheSize
  /-- The process start time. -/
  uidValidity : ℕ
  /-- `parse_email` or `generate_email_model` on a listed row; `none` where it raises. -/
  parse : ρ → Option μ

structure Item (ρ : Type) where
  id : ℕ
  row : ρ
  deriving DecidableEq

/-- The mails of one address; ids are given in ascending order and never again. -/
structure Backend (ρ : Type) where
  rows : List (Item ρ)
  lastId : ℕ
  ascending : Ordered.Ascending Item.id rows
  issued : ∀ item ∈ rows, item.id ≤ lastId

/-- The stored flags of each UID of this address and mailbox; a UID without a row has none. -/
abbrev FlagStore := ℕ → Finset String

/-- A set of message numbers; `none` stands for `*`, and two numbers are kept in order. -/
structure MessageSet where
  ranges : List (Option ℕ × Option ℕ)
  ordered : ∀ range ∈ ranges, ∀ start stop, range.1 = some start → range.2 = some stop → start ≤ stop

inductive StoreMode
  | add
  | remove
  | replace
  deriving DecidableEq

structure SimpleMessage (μ : Type) where
  uid : ℕ
  email : μ
  flags : Finset String
  deriving DecidableEq

structure SimpleMailbox (μ : Type) where
  messageCount : ℕ
  uidIndex : List ℕ
  flags : FlagStore
  cache : List (ℕ × μ)
  uidIndexBuilt : Bool

variable {ρ μ : Type}

/-! ### The backend -/

def Backend.getMessageCount (b : Backend ρ) : ℕ := b.rows.length

/-- The listing is in descending order of the id. -/
def Backend.getMessages (b : Backend ρ) (limit offset : ℕ) : List (Item ρ) :=
  (b.rows.reverse.drop offset).take limit

/-- The ids of the mails that the backend holds. -/
def Backend.ids (b : Backend ρ) : List ℕ := b.rows.map Item.id

/-! ### The flag store -/

def StoreMode.apply (flags : Finset String) : StoreMode → Finset String → Finset String
  | .add, old => old ∪ flags
  | .remove, old => old \ flags
  | .replace, _ => flags

/-- The resulting flags of every UID, and the store with them. -/
def updateFlags (store : FlagStore) (uids : List ℕ) (flags : Finset String) (mode : StoreMode) :
    List (ℕ × Finset String) × FlagStore :=
  (uids.map fun u => (u, mode.apply flags (store u)),
    fun u => if u ∈ uids then mode.apply flags (store u) else store u)

/-! ### The index -/

def SimpleMailbox.fresh : SimpleMailbox μ := ⟨0, [], fun _ => ∅, [], false⟩

namespace SimpleMailbox

def getUIDNext (box : SimpleMailbox μ) : ℕ := box.uidIndex.getLast?.elim 1 (· + 1)

def getUnseenCount (box : SimpleMailbox μ) : ℕ :=
  (box.uidIndex.filter fun u => "\\Seen" ∉ box.flags u).length

/-- One row of the listing, while the index is built. -/
def addId (uidSet : List ℕ) (item : Item ρ) : List ℕ :=
  if item.id ∈ uidSet then uidSet else uidSet ++ [item.id]

/-- `_build_uid_index` -/
def buildUidIndex (b : Backend ρ) (store : FlagStore) (box : SimpleMailbox μ) : SimpleMailbox μ :=
  let count := b.getMessageCount
  if count = 0 then
    { box with messageCount := count, uidIndex := [], uidIndexBuilt := true, flags := fun _ => ∅ }
  else
    let uidSet := Paging.sweep b.getMessages 100 count (fun _ => false) addId count 0 []
    { box with messageCount := count, uidIndex := Ordered.sortBy id uidSet, uidIndexBuilt := true, flags := store }

/-- What `STATUS` and `FETCH` do before they answer. -/
def refresh (b : Backend ρ) (store : FlagStore) (box : SimpleMailbox μ) : SimpleMailbox μ :=
  if ¬box.uidIndexBuilt then box.buildUidIndex b store
  else
    let count := b.getMessageCount
    if count ≠ box.messageCount then { box with messageCount := count }.buildUidIndex b store else box

/-- What `STORE` and `SEARCH` do before they answer. -/
def ensureIndex (b : Backend ρ) (store : FlagStore) (box : SimpleMailbox μ) : SimpleMailbox μ :=
  if ¬box.uidIndexBuilt then box.buildUidIndex b store else box

end SimpleMailbox

/-- `_seq_to_uid` -/
def seqToUid (index : List ℕ) (seq : ℕ) : Option ℕ :=
  if 1 ≤ seq ∧ seq ≤ index.length then index[seq - 1]? else none

/-- The insertion point to the left of equal entries. -/
def bisectLeft (index : List ℕ) (uid : ℕ) : ℕ := (index.takeWhile (· < uid)).length

/-- `_uid_to_seq` -/
def uidToSeq (index : List ℕ) (uid : ℕ) : Option ℕ :=
  if index[bisectLeft index uid]? = some uid then some (bisectLeft index uid + 1) else none

/-- One range of `_resolve_message_set`; a bare `*` is compared with a number, which raises. -/
def resolveRange (index : List ℕ) (uid : Bool) (range : Option ℕ × Option ℕ) : Option (List ℕ) :=
  range.1.map fun start =>
    if uid then
      let actualEnd := range.2.getD (index.getLastD 0)
      index.filter fun u => start ≤ u ∧ u ≤ actualEnd
    else
      let actualStart := max start 1
      let actualEnd := min (range.2.getD index.length) index.length
      (List.range' actualStart (actualEnd + 1 - actualStart)).filterMap (seqToUid index)

def resolveRanges (index : List ℕ) (uid : Bool) : List (Option ℕ × Option ℕ) → Option (List ℕ)
  | [] => some []
  | range :: ranges =>
    (resolveRange index uid range).bind fun us => (resolveRanges index uid ranges).map (us ++ ·)

/-- `_resolve_message_set`; `none` is a raised `TypeError`. -/
def resolveMessageSet (index : List ℕ) (messages : MessageSet) (uid : Bool) : Option (List ℕ) :=
  if index = [] then some [] else resolveRanges index uid messages.ranges

/-! ### The commands -/

namespace SimpleMailbox

variable (settings : Settings ρ μ)

structure StatusReply where
  name : String
  value : ℕ
  deriving DecidableEq

def requestStatus (b : Backend ρ) (store : FlagStore) (box : SimpleMailbox μ) (names : List String) :
    SimpleMailbox μ × List StatusReply :=
  let box := box.refresh b store
  (box, [("MESSAGES", box.messageCount), ("RECENT", 0), ("UIDNEXT", box.getUIDNext),
    ("UIDVALIDITY", settings.uidValidity), ("UNSEEN", box.getUnseenCount)].filterMap fun r =>
      if r.1 ∈ names then some ⟨r.1, r.2⟩ else none)

/-- One row of the listing, while uncached mails are looked for. -/
def pick (uncached : List ℕ) (found : List (Item ρ)) (item : Item ρ) : List (Item ρ) :=
  if item.id ∈ uncached ∧ item.id ∉ found.map Item.id then found ++ [item] else found

/-- The rows of the uncached mails, as far as the listing has them. -/
def idToData (b : Backend ρ) (box : SimpleMailbox μ) (uncached : List ℕ) : List (Item ρ) :=
  Paging.sweep b.getMessages 50 box.messageCount (fun found => decide (uncached.length ≤ found.length))
    (pick uncached) box.messageCount 0 []

/-- `_fetch_and_cache_messages` -/
def fetchAndCacheMessages (b : Backend ρ) (box : SimpleMailbox μ) (uids : List ℕ) : SimpleMailbox μ :=
  let uncached := uids.filter fun u => u ∉ Recency.keys box.cache
  if uncached = [] then box
  else if box.messageCount = 0 then box
  else
    let data := box.idToData b uncached
    let parsed := uncached.filterMap fun u =>
      (data.find? fun item => item.id = u).bind fun item => (settings.parse item.row).map (u, ·)
    { box with cache := Recency.putAll settings.imapCacheSize box.cache parsed }

/-- The answer of a `FETCH` from the cache, message by message. -/
def collect (index : List ℕ) (flags : FlagStore) :
    List ℕ → List (ℕ × μ) → List (ℕ × SimpleMessage μ) × List (ℕ × μ)
  | [], cache => ([], cache)
  | u :: us, cache =>
    match Recency.get cache u with
    | (some email, cache) =>
      let rest := collect index flags us cache
      match uidToSeq index u with
      | some seq => ((seq, ⟨u, email, flags u⟩) :: rest.1, rest.2)
      | none => rest
    | (none, cache) => collect index flags us cache

def fetch (b : Backend ρ) (store : FlagStore) (box : SimpleMailbox μ) (messages : MessageSet) (uid : Bool) :
    SimpleMailbox μ × Option (List (ℕ × SimpleMessage μ)) :=
  let box := box.refresh b store
  match resolveMessageSet box.uidIndex messages uid with
  | none => (box, none)
  | some targetUids =>
    if targetUids = [] then (box, some [])
    else
      let box := box.fetchAndCacheMessages settings b targetUids
      let result := collect box.uidIndex box.flags targetUids box.cache
      ({ box with cache := result.2 }, some result.1)

/-- The flags of one message in the answer of a `STORE`, under its number. -/
structure FlagsUnder where
  seq : ℕ
  uid : ℕ
  flags : Finset String

/-- The flags that a `STORE` wrote, by UID, and its answer. -/
structure Stored where
  updated : List (ℕ × Finset String)
  result : List FlagsUnder

def store (b : Backend ρ) (flagStore : FlagStore) (box : SimpleMailbox μ) (messages : MessageSet)
    (flags : Finset String) (mode : StoreMode) (uid : Bool) :
    SimpleMailbox μ × FlagStore × Option Stored :=
  let box := box.ensureIndex b flagStore
  if box.uidIndex = [] then (box, flagStore, some ⟨[], []⟩)
  else
    match resolveMessageSet box.uidIndex messages uid with
    | none => (box, flagStore, none)
    | some targetUids =>
      if targetUids = [] then (box, flagStore, some ⟨[], []⟩)
      else
        let written := updateFlags flagStore targetUids flags mode
        ({ box with flags := fun u => if u ∈ targetUids then written.2 u else box.flags u }, written.2,
          some ⟨written.1, written.1.filterMap fun e => (uidToSeq box.uidIndex e.1).map (⟨·, e.1, e.2⟩)⟩)

def flagSearchKeys : List (String × String × Bool) :=
  [("SEEN", "\\Seen", true), ("UNSEEN", "\\Seen", false), ("DELETED", "\\Deleted", true),
    ("UNDELETED", "\\Deleted", false), ("FLAGGED", "\\Flagged", true), ("UNFLAGGED", "\\Flagged", false),
    ("ANSWERED", "\\Answered", true), ("UNANSWERED", "\\Answered", false), ("DRAFT", "\\Draft", true),
    ("UNDRAFT", "\\Draft", false)]

/-- A term that is not text is skipped, and so is one that asks for anything but a flag. -/
def search (b : Backend ρ) (flagStore : FlagStore) (box : SimpleMailbox μ) (query : List (Option String))
    (uid : Bool) : SimpleMailbox μ × List ℕ :=
  let box := box.ensureIndex b flagStore
  let predicates := query.filterMap fun term => term.bind fun term => flagSearchKeys.lookup term.toUpper
  let matched := box.uidIndex.filter fun u => predicates.all fun p => decide (p.1 ∈ box.flags u) == p.2
  (box, if uid then matched else matched.filterMap (uidToSeq box.uidIndex))

end SimpleMailbox

/-! ### The server -/

/-- What a `FETCH` asks for, as far as the server looks at it. -/
inductive FetchPart
  | uid
  | body (peek : Bool)
  | rfc822
  | rfc822text
  | other
  deriving DecidableEq

/-- `_fetch_implies_seen` -/
def FetchPart.impliesSeen : FetchPart → Bool
  | .body peek => !peek
  | .rfc822 | .rfc822text => true
  | .uid | .other => false

def fetchImpliesSeen (query : List FetchPart) : Bool := query.any FetchPart.impliesSeen

/-- What a command leaves, and what it told the client or did to messages. -/
structure Reply (μ : Type) where
  box : SimpleMailbox μ
  flagStore : FlagStore
  /-- The answer of the `FETCH`; `none` where it raised. -/
  fetched : Option (List (ℕ × SimpleMessage μ))
  stored : Option SimpleMailbox.Stored

/-- `do_FETCH`; a failure to store `\Seen` is only logged. -/
def doFetch (settings : Settings ρ μ) (b : Backend ρ) (flagStore : FlagStore) (box : SimpleMailbox μ)
    (messages : MessageSet) (query : List FetchPart) (uid : Bool) : Reply μ :=
  if ¬fetchImpliesSeen query then
    let answer := box.fetch settings b flagStore messages uid
    ⟨answer.1, flagStore, answer.2, none⟩
  else
    let seen := box.store b flagStore messages {"\\Seen"} .add uid
    let answer := seen.1.fetch settings b seen.2.1 messages uid
    ⟨answer.1, seen.2.1, answer.2, seen.2.2⟩

end OneMail.Proxy
