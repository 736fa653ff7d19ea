import OneMail.Lib.Transition
import OneMail.Sync.Graph

/-! The POP3 sync of an account.

    `fetchNewPop3Messages` is `fetch_new_pop3_messages` of `pop3_source.py`, `syncPop3` is `sync_pop3`, and
    the UIDLs already seen are the list that `SyncState` keeps for the inbox. The connection does not fail; the
    upload may, and any message may be impossible to normalise. The events record what became of the messages. -/

namespace OneMail.Pop3
open Imap (batchSize batchBytes maxSingleBytes)
open Graph (addPop3SeenMany pop3SeenMax)

/-- A message as the server shows it: its UIDL, the size that LIST gives, and what RETR returns. -/
structure Message (ρ : Type*) where
  uidl : String
  size : Option ℤ
  raw : ρ

/-- The messages of a mailbox, under distinct UIDLs; message numbers are positions. -/
structure Mailbox (ρ : Type*) where
  messages : List (Message ρ)
  nodup : (messages.map Message.uidl).Nodup

structure RawMessage (ρ : Type*) where
  uid : ℕ
  rawBytes : ρ
  internalDateMs : Option ℤ
  uidl : String

structure Account where
  id : String
  pop3Host : String
  folders : List String
  initialSyncLimit : ℤ

/-- The functions that the sync calls: `str.strip` and `str.upper`, the date of the header, and
    `normalize_message` for the account and the inbox (`none` where it raises). -/
structure Formats (ρ ε : Type*) where
  strip : String → String
  upper : String → String
  headerDateMs : ρ → Option ℤ
  normalize : ρ → Option ℤ → String → Option ε

inductive Event where
  | older (uidl : String)
  | overLimit (uidl : String)
  | downloaded (uidl : String)
  | unnormalised (uidl : String)
  | uploaded (uidl : String)
  deriving DecidableEq

variable {ρ ε : Type*}

def uidlToKey (account : Account) (folder uidl : String) : String :=
  "pop3:" ++ account.id ++ ":" ++ account.pop3Host ++ ":" ++ folder ++ ":" ++ uidl

/-! ### One fetch -/

/-- UIDL: the messages with their numbers. -/
def uidlList (messages : List (Message ρ)) : List (ℕ × Message ρ) := messages.mapIdx fun i m => (i + 1, m)

def pending (messages : List (Message ρ)) (seen : List String) : List (ℕ × Message ρ) :=
  (uidlList messages).filter fun m => m.2.uidl ∉ seen

/-- How many of the oldest messages the initial sync limit skips. -/
def initialSkip (account : Account) (messages : List (Message ρ)) (seen : List String) : ℕ :=
  if seen = [] ∧ 0 < account.initialSyncLimit ∧ account.initialSyncLimit < (pending messages seen).length then
    (pending messages seen).length - account.initialSyncLimit.toNat
  else 0

/-- `pending[:-initial_limit]`. -/
def older (account : Account) (messages : List (Message ρ)) (seen : List String) : List (ℕ × Message ρ) :=
  (pending messages seen).take (initialSkip account messages seen)

/-- `pending[-initial_limit:]`. -/
def candidates (account : Account) (messages : List (Message ρ)) (seen : List String) : List (ℕ × Message ρ) :=
  (pending messages seen).drop (initialSkip account messages seen)

/-- A size that LIST does not give counts as too large. -/
def Message.listedSize (m : Message ρ) : ℤ := m.size.getD (maxSingleBytes + 1)

/-- The loop variables of the window scan. -/
structure Scan (ρ : Type*) where
  picked : List (ℕ × Message ρ)
  total : ℤ
  oversize : List String
  seen : List String

/-- The window scan: it stops at a full batch and at the byte budget, and marks what is too large as seen. -/
def scan : List (ℕ × Message ρ) → Scan ρ → Scan ρ
  | [], s => s
  | m :: rest, s =>
    if batchSize ≤ s.picked.length then s
    else if maxSingleBytes < m.2.listedSize then
      scan rest { s with oversize := s.oversize ++ [m.2.uidl], seen := addPop3SeenMany s.seen [m.2.uidl] }
    else if batchBytes < s.total + m.2.listedSize ∧ s.picked ≠ [] then s
    else scan rest { s with picked := s.picked ++ [m], total := s.total + m.2.listedSize }

/-- RETR. -/
def rawMessage (formats : Formats ρ ε) (m : ℕ × Message ρ) : RawMessage ρ where
  uid := m.1
  rawBytes := m.2.raw
  internalDateMs := formats.headerDateMs m.2.raw
  uidl := m.2.uidl

structure Fetched (ρ : Type*) where
  seen : List String
  oversize : List String
  events : List Event
  messages : List (RawMessage ρ)

/-- `fetch_new_pop3_messages`. -/
def fetchNewPop3Messages (formats : Formats ρ ε) (account : Account) (messages : List (Message ρ))
    (seen : List String) : Fetched ρ :=
  let olderUidls := (older account messages seen).map (·.2.uidl)
  let s := scan (candidates account messages seen) ⟨[], 0, [], addPop3SeenMany seen olderUidls⟩
  ⟨s.seen, s.oversize,
    olderUidls.map .older ++ s.oversize.map .overLimit ++ s.picked.map fun m => .downloaded m.2.uidl,
    s.picked.map (rawMessage formats)⟩

/-! ### One round -/

structure Result where
  synced : ℕ
  dropped : ℕ
  protocol : String
  droppedFolders : List String
  warning : Option String
  deriving DecidableEq

structure Synced where
  seen : List String
  events : List Event
  result : Except String Result

def nonInbox (formats : Formats ρ ε) (account : Account) : List String :=
  account.folders.filter fun folder => formats.upper (formats.strip folder) ≠ "INBOX"

def accountResult (formats : Formats ρ ε) (account : Account) (synced dropped : ℕ) : Result where
  synced := synced
  dropped := dropped + (nonInbox formats account).length
  protocol := "pop3"
  droppedFolders := nonInbox formats account
  warning :=
    if nonInbox formats account = [] then none
    else some ("POP3 only supports INBOX; non-INBOX folders were dropped: " ++
      ", ".intercalate (nonInbox formats account))

def RawMessage.normalized (formats : Formats ρ ε) (account : Account) (m : RawMessage ρ) : Option ε :=
  formats.normalize m.rawBytes m.internalDateMs (uidlToKey account "INBOX" m.uidl)

/-- `sync_pop3`. `uploadEmails` answers with the number of rows inserted, where it tells. -/
def syncPop3 (formats : Formats ρ ε) (account : Account) (uploadEmails : List ε → Except String (Option ℕ))
    (messages : List (Message ρ)) (seen : List String) : Synced :=
  if account.folders.all fun folder => formats.upper (formats.strip folder) ≠ "INBOX" then
    ⟨seen, [], .error s!"pop3 {account.id}: folders must include INBOX; POP3 cannot sync non-INBOX folders"⟩
  else
    let fetched := fetchNewPop3Messages formats account messages seen
    let msgs := fetched.messages
    if msgs = [] then
      ⟨fetched.seen, fetched.events, .ok (accountResult formats account 0 fetched.oversize.length)⟩
    else
      let good := msgs.filter fun m => (m.normalized formats account).isSome
      let bad := msgs.filter fun m => (m.normalized formats account).isNone
      let events := fetched.events ++ bad.map fun m => .unnormalised m.uidl
      let result := fun inserted => accountResult formats account inserted (fetched.oversize.length + bad.length)
      let batch := msgs.filterMap fun m => m.normalized formats account
      if batch = [] then
        ⟨fetched.seen, events, .error (s!"pop3 {account.id}: all {msgs.length} pending messages failed to " ++
          s!"normalize (dropped={(result 0).dropped}), nothing uploaded and nothing marked seen")⟩
      else match uploadEmails batch with
        | .error e => ⟨fetched.seen, events, .error e⟩
        | .ok inserted =>
          ⟨addPop3SeenMany fetched.seen (good.map (·.uidl)), events ++ good.map fun m => .uploaded m.uidl,
            .ok (result (inserted.getD batch.length))⟩

/-- The seen set after a round, successful or not. -/
def roundSeen (formats : Formats ρ ε) (account : Account) (uploadEmails : List ε → Except String (Option ℕ))
    (messages : List (Message ρ)) (seen : List String) : List String :=
  (syncPop3 formats account uploadEmails messages seen).seen

/-! ### Rounds and new mail -/

/-- The mailbox, what `SyncState` holds, and all that has happened. -/
structure World (ρ : Type*) where
  mailbox : Mailbox ρ
  seen : List String
  events : List Event

inductive Label (ρ ε : Type*) where
  | grow (mailbox : Mailbox ρ)
  | round (uploadEmails : List ε → Except String (Option ℕ))

def Mailbox.uidls (mb : Mailbox ρ) : List String := mb.messages.map Message.uidl

/-- The mailbox grows, or a round of the sync succeeds. -/
inductive Step (formats : Formats ρ ε) (account : Account) : World ρ → Label ρ ε → World ρ → Prop
  | grow {w} (mb : Mailbox ρ) (h : w.mailbox.uidls ⊆ mb.uidls) :
      Step formats account w (.grow mb) { w with mailbox := mb }
  | round {w result} (uploadEmails : List ε → Except String (Option ℕ))
      (h : (syncPop3 formats account uploadEmails w.mailbox.messages w.seen).result = .ok result) :
      Step formats account w (.round uploadEmails) { w with
        seen := (syncPop3 formats account uploadEmails w.mailbox.messages w.seen).seen
        events := w.events ++ (syncPop3 formats account uploadEmails w.mailbox.messages w.seen).events }

/-- An account that was never synced. -/
def system (formats : Formats ρ ε) (account : Account) : Transition.System (World ρ) (Label ρ ε) where
  init w := w.seen = [] ∧ w.events = []
  step := Step formats account

/-- No message is downloaded after it was uploaded, or marked as older. -/
def Once (events : List Event) : Prop :=
  events.Pairwise fun before event => ∀ uidl, event = .downloaded uidl → before ≠ .uploaded uidl ∧ before ≠ .older uidl

/-- Left alone, the mailbox is synced in finitely many rounds, all of them successful: from then on nothing is
    fetched. -/
def Settles (formats : Formats ρ ε) (account : Account) (uploadEmails : List ε → Except String (Option ℕ))
    (messages : List (Message ρ)) (seen : List String) : Prop :=
  (∀ n, (syncPop3 formats account uploadEmails messages
    ((roundSeen formats account uploadEmails messages)^[n] seen)).result.isOk) ∧
  ∃ n, ∀ k ≥ n, (fetchNewPop3Messages formats account messages
    ((roundSeen formats account uploadEmails messages)^[k] seen)).messages = []

end OneMail.Pop3
