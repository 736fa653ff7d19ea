import OneMail.Lib.Transition
import OneMail.Proxy.Mailbox

/-! One IMAP session beside a mailbox that changes.

    Mails arrive under ascending ids and are deleted between the commands, and other sessions write
    flags. `told` collects the numbers the client has been given since its last `SELECT`: a `FETCH`
    that names UIDs tells that its number `n` is UID `u`. A `STATUS` may come through
    `Account.select`, which builds the index anew, or go to the mailbox alone. -/

namespace OneMail.Proxy

variable {ρ μ : Type}

structure World (ρ μ : Type) where
  backend : Backend ρ
  flagStore : FlagStore
  box : SimpleMailbox μ
  told : List (ℕ × ℕ)

inductive Event (ρ : Type)
  /-- A new mail; ids of other addresses may lie before its id. -/
  | arrive (skipped : ℕ) (row : ρ)
  | delete (id : ℕ)
  /-- Another session has stored flags. -/
  | flagged (store : FlagStore)
  | select
  | status (reindex : Bool) (names : List String)
  | fetch (messages : MessageSet) (query : List FetchPart) (uid : Bool)
  | store (messages : MessageSet) (flags : Finset String) (mode : StoreMode) (uid : Bool)
  | search (query : List (Option String)) (uid : Bool)

theorem Backend.ids_ascending (b : Backend ρ) : Ordered.Ascending id b.ids := List.pairwise_map.mpr b.ascending

theorem Backend.ids_nodup (b : Backend ρ) : b.ids.Nodup := b.ids_ascending.nodup

@[simp] theorem Backend.length_ids (b : Backend ρ) : b.ids.length = b.rows.length := List.length_map _

theorem Backend.mem_ids {b : Backend ρ} {u : ℕ} : u ∈ b.ids ↔ ∃ item ∈ b.rows, item.id = u := List.mem_map

theorem Backend.eq_of_id {b : Backend ρ} {item item' : Item ρ} (h : item ∈ b.rows) (h' : item' ∈ b.rows)
    (hid : item.id = item'.id) : item = item' :=
  List.inj_on_of_nodup_map b.ids_nodup h h' hid

/-- A mail arrives under an id above all that were ever given. -/
def Backend.arrive (b : Backend ρ) (skipped : ℕ) (row : ρ) : Backend ρ where
  rows := b.rows ++ [⟨b.lastId + skipped + 1, row⟩]
  lastId := b.lastId + skipped + 1
  ascending := by
    refine List.pairwise_append.mpr ⟨b.ascending, List.pairwise_singleton _ _, fun item h item' h' => ?_⟩
    rw [List.mem_singleton.mp h']
    have := b.issued item h
    show item.id < b.lastId + skipped + 1
    omega
  issued := fun item h => by
    rcases List.mem_append.mp h with h | h
    · have := b.issued item h
      omega
    · rw [List.mem_singleton.mp h]

def Backend.delete (b : Backend ρ) (id : ℕ) : Backend ρ where
  rows := b.rows.filter fun item => item.id ≠ id
  lastId := b.lastId
  ascending := b.ascending.filter _
  issued := fun item h => b.issued item (List.mem_of_mem_filter h)

/-- The pairs of number and UID in an answer of `FETCH`. -/
def numbers (fetched : Option (List (ℕ × SimpleMessage μ))) : List (ℕ × ℕ) :=
  (fetched.getD []).map fun m => (m.1, m.2.uid)

namespace World

/-- The reply to a `FETCH` or `STORE`. -/
def reply (settings : Settings ρ μ) (w : World ρ μ) : Event ρ → Option (Reply μ)
  | .fetch messages query uid => some (doFetch settings w.backend w.flagStore w.box messages query uid)
  | .store messages flags mode uid =>
    let stored := w.box.store w.backend w.flagStore messages flags mode uid
    some ⟨stored.1, stored.2.1, none, stored.2.2⟩
  | _ => none

def next (settings : Settings ρ μ) (w : World ρ μ) (e : Event ρ) : World ρ μ :=
  match e with
  | .arrive skipped row => { w with backend := w.backend.arrive skipped row }
  | .delete id => { w with backend := w.backend.delete id }
  | .flagged store => { w with flagStore := store }
  | .select => { w with box := w.box.buildUidIndex w.backend w.flagStore, told := [] }
  | .status reindex names =>
    let box := if reindex then w.box.buildUidIndex w.backend w.flagStore else w.box
    { w with box := (box.requestStatus settings w.backend w.flagStore names).1 }
  | .search query uid => { w with box := (w.box.search w.backend w.flagStore query uid).1 }
  | .store messages flags mode uid =>
    let stored := w.box.store w.backend w.flagStore messages flags mode uid
    { w with box := stored.1, flagStore := stored.2.1 }
  | .fetch messages query uid =>
    let reply := doFetch settings w.backend w.flagStore w.box messages query uid
    { w with
      box := reply.box
      flagStore := reply.flagStore
      told := if uid ∨ .uid ∈ query then w.told ++ numbers reply.fetched else w.told }

end World

/-- A session starts with a mailbox object of its own. -/
def session (settings : Settings ρ μ) : Transition.System (World ρ μ) (Event ρ) where
  init := fun w => w.box = SimpleMailbox.fresh ∧ w.told = []
  step := fun w e w' => w' = w.next settings e

/-! ### The two promises -/

/-- The number is in the set, an open end being any number. -/
def MessageSet.Lists (messages : MessageSet) (n : ℕ) : Prop :=
  ∃ range ∈ messages.ranges, ∃ start, range.1 = some start ∧ start ≤ n ∧ ∀ stop, range.2 = some stop → n ≤ stop

/-- The UID is in the set; `*` is the greatest UID in the mailbox, and a range goes both ways. -/
def MessageSet.Covers (messages : MessageSet) (top u : ℕ) : Prop :=
  ∃ range ∈ messages.ranges, min (range.1.getD top) (range.2.getD top) ≤ u ∧
    u ≤ max (range.1.getD top) (range.2.getD top)

/-- The UIDs whose flags a reply wrote or which it returned. -/
def Reply.touched (r : Reply μ) : List ℕ :=
  (r.stored.elim [] fun s => s.updated.map Prod.fst) ++ (numbers r.fetched).map Prod.snd

/-- Which number acted on which UID. -/
def Reply.acts (r : Reply μ) : List (ℕ × ℕ) :=
  (r.stored.elim [] fun s => s.result.map fun e => (e.seq, e.uid)) ++ numbers r.fetched

/-- The command names its messages by number. -/
def Event.byNumber : Event ρ → Option MessageSet
  | .fetch messages _ false | .store messages _ _ false => some messages
  | _ => none

/-- A command by numbers acts through numbers of its set only, and each of them that the client knows as
    UID `u` acts on `u` or on nothing. -/
def Stable (settings : Settings ρ μ) (w : World ρ μ) (e : Event ρ) : Prop :=
  ∀ messages r, e.byNumber = some messages → w.reply settings e = some r →
    (∀ u ∈ r.touched, ∃ n, (n, u) ∈ r.acts) ∧
    ∀ n u', (n, u') ∈ r.acts → messages.Lists n ∧ ∀ u, (n, u) ∈ w.told → u' = u

/-- The greatest UID of the mails the backend holds. -/
def Backend.top (b : Backend ρ) : ℕ := b.ids.getLastD 0

/-- A mail of the set that the proxy can read. -/
def Backend.Wanted (settings : Settings ρ μ) (b : Backend ρ) (messages : MessageSet) (item : Item ρ) : Prop :=
  item ∈ b.rows ∧ messages.Covers b.top item.id ∧ (settings.parse item.row).isSome

/-- A `UID FETCH` returns every readable mail of its set. -/
def Complete (settings : Settings ρ μ) (w : World ρ μ) (e : Event ρ) : Prop :=
  ∀ messages query r, e = .fetch messages query true → w.reply settings e = some r →
    ∀ item email, w.backend.Wanted settings messages item → settings.parse item.row = some email →
      ∃ m ∈ r.fetched.getD [], m.2.uid = item.id ∧ m.2.email = email

/-! ### When the proxy keeps them -/

/-- The event builds the index anew, while the client goes on using its numbers. -/
def World.rebuilds (w : World ρ μ) : Event ρ → Bool
  | .status reindex _ => reindex || !w.box.uidIndexBuilt || w.backend.rows.length != w.box.messageCount
  | .fetch _ _ _ => !w.box.uidIndexBuilt || w.backend.rows.length != w.box.messageCount
  | .store _ _ _ _ | .search _ _ => !w.box.uidIndexBuilt
  | _ => false

/-- The backend holds fewer than `n` mails, or it holds `u` with `n - 1` mails before it. -/
def Backend.Kept (b : Backend ρ) (n u : ℕ) : Prop :=
  b.rows.length < n ∨ (u ∈ b.ids ∧ (b.ids.filter (· < u)).length + 1 = n)

/-- When the index is built anew, every number that the client was told still fits the backend's mails. -/
def KeepsNumbers (w : World ρ μ) (e : Event ρ) : Prop :=
  w.rebuilds e = true → ∀ n u, (n, u) ∈ w.told → w.backend.Kept n u

/-- Every range starts with a number, and an open one not above the greatest UID. -/
def Readable (b : Backend ρ) (messages : MessageSet) : Prop :=
  b.rows ≠ [] → ∀ range ∈ messages.ranges, ∃ start, range.1 = some start ∧ (range.2 = none → start ≤ b.top)

/-- If the count of mails has not changed since the index was built, no mail of the set has come since. -/
def Current (w : World ρ μ) (messages : MessageSet) : Prop :=
  w.box.uidIndexBuilt = true → w.backend.rows.length = w.box.messageCount →
    ∀ item ∈ w.backend.rows, messages.Covers w.backend.top item.id → item.id ∈ w.box.uidIndex

instance (messages : MessageSet) (top u : ℕ) : Decidable (messages.Covers top u) :=
  inferInstanceAs (Decidable (∃ range ∈ messages.ranges, min (range.1.getD top) (range.2.getD top) ≤ u ∧
    u ≤ max (range.1.getD top) (range.2.getD top)))

/-- The readable mails of the set that are not in the cache. -/
def newcomers (settings : Settings ρ μ) (w : World ρ μ) (messages : MessageSet) : List (Item ρ) :=
  w.backend.rows.filter fun item => messages.Covers w.backend.top item.id ∧
    item.id ∉ Recency.keys w.box.cache ∧ (settings.parse item.row).isSome

/-- The cache has room for what the set adds to it, beside what it holds of the set and was used later. -/
def Fits (settings : Settings ρ μ) (w : World ρ μ) (messages : MessageSet) : Prop :=
  (newcomers settings w messages).length ≤ settings.imapCacheSize ∧
    ∀ item older newer, w.backend.Wanted settings messages item →
      Recency.keys w.box.cache = older ++ item.id :: newer →
        newer.length + (newcomers settings w messages).length < settings.imapCacheSize

def Answerable (settings : Settings ρ μ) (w : World ρ μ) (e : Event ρ) : Prop :=
  ∀ messages query, e = .fetch messages query true →
    Readable w.backend messages ∧ Current w messages ∧ Fits settings w messages

end OneMail.Proxy
