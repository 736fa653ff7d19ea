import Mathlib
import OneMail.Lib.Transition

/-! The IMAP sync of one account folder.

    `fetchNewMessages` is `fetch_new_messages` of `imap_base.py`, `syncFolder` the body of the folder
    loop of `sync_imap`, and `FolderState` what `SyncState` stores for the folder. Everything the
    surroundings answer in one round is a `Replies`: each IMAP command may fail, and so may the
    upload. The events record what became of the messages: skipped by the initial sync limit, dropped
    as over the limit, dropped as impossible to normalise, or uploaded. -/

namespace OneMail.Imap

def batchSize : ℕ := 50

def batchBytes : ℤ := 64 * 1024 * 1024

def maxSingleBytes : ℤ := 30 * 1024 * 1024

structure RawMessage where
  uid : ℕ
  rawBytes : List UInt8
  internalDateMs : Option ℤ
  gmailThreadId : Option String

/-- What the sync reads of an account: its `initial_sync_limit`, and whether its source is
    `imap_gmail`. -/
structure Account where
  initialSyncLimit : ℤ
  imapGmail : Bool

/-- The entries `last_uid` and `uidvalidity` of `SyncState` for the folder. -/
structure FolderState where
  lastUid : ℕ
  uidvalidity : Option ℕ
  deriving DecidableEq

/-- `set_last_uid_max`: the watermark only ever grows. -/
def FolderState.setLastUidMax (st : FolderState) (uid : ℕ) : FolderState :=
  if st.lastUid < uid then { st with lastUid := uid } else st

/-- The UID a round searches from: 0 under a new UIDVALIDITY. -/
def FolderState.searchesFrom (st : FolderState) (uidvalidity : ℕ) : ℕ :=
  match st.uidvalidity with
  | some known => if known ≠ uidvalidity then 0 else st.lastUid
  | none => st.lastUid

/-- What a round stores once it has selected the folder. -/
def FolderState.selected (st : FolderState) (uidvalidity : ℕ) : FolderState :=
  { st with uidvalidity := some uidvalidity }

/-- What a FETCH of a body answers for one message; a message it leaves out has no item at all. -/
structure Body where
  rfc822 : Option (List UInt8)
  internalDate : Option ℤ
  xGmThrid : Option ℤ

/-- What one round is answered. `none` is a command that failed; `outer` and `inner` are the
    UIDVALIDITY values of the two SELECTs, `sizes` has no size where RFC822.SIZE is missing, and
    `uploaded` says whether `upload_emails` returned. -/
structure Replies where
  outer : Option ℕ
  inner : Option ℕ
  search : ℕ → Option (List ℕ)
  sizes : Option (ℕ → Option ℤ)
  bodies : Option (ℕ → Body)
  uploaded : Bool

inductive Event where
  | skipped (uidvalidity : ℕ) (uid : ℕ)
  | overLimit (uidvalidity : ℕ) (uid : ℕ)
  | unnormalised (uidvalidity : ℕ) (uid : ℕ)
  | uploaded (uidvalidity : ℕ) (uid : ℕ)
  deriving DecidableEq

/-- `gmail_thread_id_from_fetch` on the integer that IMAPClient parses: unpadded lowercase hex. -/
def gmailThreadIdFromFetch : Option ℤ → Option String
  | none => none
  | some number =>
    if number ≤ 0 ∨ 2 ^ 64 ≤ number then none else some (String.ofList (Nat.toDigits 16 number.toNat))

/-- One message of the answer to the body FETCH. -/
def rawMessage (account : Account) (bodies : ℕ → Body) (u : ℕ) : RawMessage where
  uid := u
  rawBytes := (bodies u).rfc822.getD []
  internalDateMs := (bodies u).internalDate
  gmailThreadId := if account.imapGmail then gmailThreadIdFromFetch (bodies u).xGmThrid else none

/-- `max(uids)` of a list that is not empty. -/
def maxUid (uids : List ℕ) : ℕ := uids.foldl max 0

/-- How many of the oldest messages the initial sync limit skips. -/
def initialSkip (account : Account) (lastUid : ℕ) (uids : List ℕ) : ℕ :=
  if lastUid = 0 ∧ 0 < account.initialSyncLimit ∧ account.initialSyncLimit < uids.length then
    uids.length - account.initialSyncLimit.toNat
  else 0

/-- `uids[:-limit]`. -/
def skippedUids (account : Account) (lastUid : ℕ) (uids : List ℕ) : List ℕ :=
  uids.take (initialSkip account lastUid uids)

/-- `uids[-limit:]`. -/
def candidates (account : Account) (lastUid : ℕ) (uids : List ℕ) : List ℕ :=
  uids.drop (initialSkip account lastUid uids)

/-- The loop variables of the window scan, and the state it writes to. -/
structure Scan where
  picked : List ℕ
  total : ℤ
  overLimit : List ℕ
  state : FolderState

/-- The window scan: it stops at a full batch, at a message of unknown size and at the byte budget,
    and moves the watermark over each message that is too large. -/
def scan (sizes : ℕ → Option ℤ) : List ℕ → Scan → Scan
  | [], s => s
  | u :: uids, s =>
    if batchSize ≤ s.picked.length then s
    else match sizes u with
      | none => s
      | some size =>
        if maxSingleBytes < size then
          scan sizes uids
            { s with overLimit := s.overLimit ++ [u], state := s.state.setLastUidMax u }
        else if batchBytes < s.total + size ∧ s.picked ≠ [] then s
        else scan sizes uids { s with picked := s.picked ++ [u], total := s.total + size }

/-- What `fetch_new_messages` leaves: the stored state, the UIDs it counts as dropped, its events, and
    the messages it returns (`none` when it raises). -/
structure Fetched where
  state : FolderState
  oversize : List ℕ
  events : List Event
  messages : Option (List RawMessage)

/-- The window of one round, once SEARCH has found `uids` above the watermark. -/
def fetchWindow (account : Account) (replies : Replies) (uidvalidity : ℕ) (lastUid : ℕ)
    (uids : List ℕ) (st : FolderState) : Fetched :=
  let skipped := skippedUids account lastUid uids
  let uids := candidates account lastUid uids
  let st := if skipped = [] then st else st.setLastUidMax (maxUid skipped)
  let events := skipped.map (Event.skipped uidvalidity)
  match replies.sizes with
  | none => ⟨st, [], events, none⟩
  | some sizes =>
    let s := scan sizes uids ⟨[], 0, [], st⟩
    let oversize := (uids.filter fun u => (sizes u).isNone) ++ s.overLimit
    let events := events ++ s.overLimit.map (Event.overLimit uidvalidity)
    if s.picked = [] then ⟨s.state, oversize, events, some []⟩
    else match replies.bodies with
      | none => ⟨s.state, oversize, events, none⟩
      | some bodies => ⟨s.state, oversize, events, some (s.picked.map (rawMessage account bodies))⟩

/-- `fetch_new_messages`. -/
def fetchNewMessages (account : Account) (replies : Replies) (st : FolderState) : Fetched :=
  match replies.inner with
  | none => ⟨st, [], [], none⟩
  | some uidvalidity =>
    let lastUid := st.searchesFrom uidvalidity
    match replies.search (lastUid + 1) with
    | none => ⟨st.selected uidvalidity, [], [], none⟩
    | some found =>
      let uids := found.filter fun u => lastUid < u
      if uids = [] then ⟨st.selected uidvalidity, [], [], some []⟩
      else fetchWindow account replies uidvalidity lastUid uids (st.selected uidvalidity)

/-- What one turn of the folder loop leaves: the stored state, its events, and the counts `synced` and
    `dropped` (`none` when it raises). -/
structure Synced where
  state : FolderState
  events : List Event
  counts : Option (ℕ × ℕ)

variable {ε : Type*}

/-- The body of the folder loop of `sync_imap`. `normalize` is `normalize_message` for the account and
    folder; `none` is a message it raises on. -/
def syncFolder (normalize : ℕ → RawMessage → Option ε) (account : Account) (replies : Replies)
    (st : FolderState) : Synced :=
  match replies.outer with
  | none => ⟨st, [], none⟩
  | some uidvalidity =>
    let fetched := fetchNewMessages account replies st
    match fetched.messages with
    | none => ⟨fetched.state, fetched.events, none⟩
    | some msgs =>
      if msgs = [] then ⟨fetched.state, fetched.events, some (0, fetched.oversize.length)⟩
      else
        let batch := msgs.filter fun m => (normalize uidvalidity m).isSome
        let bad := msgs.filter fun m => (normalize uidvalidity m).isNone
        let events := fetched.events ++ bad.map fun m => Event.unnormalised uidvalidity m.uid
        if batch ≠ [] ∧ replies.uploaded = false then ⟨fetched.state, events, none⟩
        else
          ⟨fetched.state.setLastUidMax (maxUid (msgs.map (·.uid))),
            events ++ batch.map fun m => Event.uploaded uidvalidity m.uid,
            some (batch.length, fetched.oversize.length + bad.length)⟩

end OneMail.Imap
