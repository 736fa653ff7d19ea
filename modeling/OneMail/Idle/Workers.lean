import Mathlib
import OneMail.Lib.KeyValue
import OneMail.Lib.Transition

/-! IDLE workers and the poll loop of the aggregator (`idle_worker.py`, `main.py`).

    `ensure_idle_workers` keeps one `ImapIdleWorker` thread for each IMAP account in a registry, and asks the
    threads of accounts that left, changed or are skipped to stop. `_poll_pass` then syncs the accounts that no
    registered worker manages. A thread looks at its stop flag only between its blocking calls, so it may run on
    for any time. Every such stretch, and every turn of a loop, is a step of its own. -/

namespace OneMail.Idle
open KeyValue Transition

/-- The columns of an `AccountConfig` that the workers and the poll loop read. -/
structure Account where
  id : String
  source : String
  protocol : String
  host : String
  port : ℤ
  useSsl : Bool
  username : String
  folders : List String
  pollInterval : Option ℤ
  deriving DecidableEq

/-- Python's `str.strip` and `str.lower`, and the host table of `proxy_client.py`. -/
structure Platform where
  strip : String → String
  lower : String → String
  isOverseasImapHost : String → Bool

abbrev Fingerprint := String × ℤ × Bool × String

def idleFingerprint (py : Platform) (acc : Account) : Fingerprint :=
  (py.lower (py.strip acc.host), acc.port, acc.useSsl, py.lower (py.strip acc.username))

def folderKey (py : Platform) (acc : Account) : List String := acc.folders.map py.strip

/-! ### One worker -/

/-- Where a thread stands in `run`. -/
inductive Phase where
  /-- At the head of the outer loop. -/
  | outer
  /-- Past the checks of the outer loop; the initial sync comes without another. -/
  | connecting
  | syncing (initial : Bool)
  /-- At the head of the inner loop. -/
  | inner
  /-- In `idle_check` or in the wait before a NOOP. -/
  | waiting
  /-- Past the check after the wait; the sync comes without another. -/
  | ready
  | failing (quota : Bool)
  | backoff
  | done
  deriving DecidableEq

structure Worker where
  account : Account
  stopped : Bool
  enableNoopFallback : Bool
  consecutiveErrors : ℕ
  phase : Phase
  deriving DecidableEq

def Worker.isAlive (w : Worker) : Bool := w.phase ≠ .done

def Worker.isSyncing (w : Worker) : Bool := w.phase = .syncing true || w.phase = .syncing false

/-- In a sync, or on the way into one past the last check of the stop flag. -/
def Worker.underway (w : Worker) : Bool := w.phase = .connecting || w.phase = .ready || w.isSyncing

def idleFailureThreshold : ℕ := 5

/-- What a thread does between two looks at shared state, `skip` being `should_skip_account`. -/
inductive WorkerStep (skip : Bool) (w : Worker) : Worker → Prop
  | leave (h : w.phase = .outer) (hs : w.stopped = true ∨ skip = true) : WorkerStep skip w { w with phase := .done }
  | connect (h : w.phase = .outer) (hs : w.stopped = false) (hk : skip = false) :
      WorkerStep skip w { w with phase := .connecting }
  | connected (h : w.phase = .connecting) : WorkerStep skip w { w with phase := .syncing true }
  | begun (h : w.phase = .syncing true) : WorkerStep skip w { w with phase := .inner }
  | synced (h : w.phase = .syncing false) : WorkerStep skip w { w with phase := .inner, consecutiveErrors := 0 }
  | recycle (h : w.phase = .syncing false) : WorkerStep skip w { w with phase := .outer, consecutiveErrors := 0 }
  | breakOff (h : w.phase = .inner) (hs : w.stopped = true ∨ skip = true) :
      WorkerStep skip w { w with phase := .outer }
  | wait (h : w.phase = .inner) (hs : w.stopped = false) (hk : skip = false) :
      WorkerStep skip w { w with phase := .waiting }
  | woken (h : w.phase = .waiting) (hs : w.stopped = true) : WorkerStep skip w { w with phase := .outer }
  | wake (h : w.phase = .waiting) (hs : w.stopped = false) : WorkerStep skip w { w with phase := .ready }
  | sync (h : w.phase = .ready) : WorkerStep skip w { w with phase := .syncing false }
  /-- Errors of the initial sync are swallowed, but for those of the quota. -/
  | raise (quota : Bool) (h : w.phase = .connecting ∨ w.phase = .syncing false ∨ w.phase = .waiting ∨
      w.phase = .ready ∨ w.phase = .syncing true ∧ quota = true) : WorkerStep skip w { w with phase := .failing quota }
  | quota (h : w.phase = .failing true) : WorkerStep skip w { w with phase := .done }
  | retry (h : w.phase = .failing false) (he : w.consecutiveErrors + 1 < idleFailureThreshold) :
      WorkerStep skip w { w with phase := .backoff, consecutiveErrors := w.consecutiveErrors + 1 }
  | reconnect (h : w.phase = .backoff) (hs : w.stopped = false) : WorkerStep skip w { w with phase := .outer }
  | giveUp (h : w.phase = .backoff) (hs : w.stopped = true) : WorkerStep skip w { w with phase := .done }
  | crash : WorkerStep skip w { w with phase := .done }

/-! ### The process -/

/-- Where the poll loop stands. `now` is the clock reading of the pass. -/
inductive Main where
  | idle
  /-- In the first loop of `ensure_idle_workers`; the ids are those still to look at. -/
  | pruning (ids : List String) (accounts : List Account) (now : ℤ)
  | ensuring (rest accounts : List Account) (now : ℤ)
  /-- In the `join` of a worker whose folders changed. -/
  | joining (acc : Account) (rest accounts : List Account) (now : ℤ)
  /-- All checks have passed; the worker is started unless one is alive. -/
  | launching (acc : Account) (rest accounts : List Account) (now : ℤ)
  | polling (rest : List Account) (now : ℤ)
  | syncing (acc : Account) (rest : List Account) (now : ℤ)
  deriving DecidableEq

structure Process where
  workers : List Worker
  active : Map String ℕ
  activeFolders : Map String (List String)
  unsupported : Map String Fingerprint
  retryAfter : Map String (Fingerprint × ℤ)
  lastPoll : Map String ℤ
  skips : String → Bool
  pinned : String → Bool
  clock : ℤ
  main : Main

/-- `_lock` is held throughout `ensure_idle_workers`. -/
def Main.locks : Main → Bool
  | .pruning .. | .ensuring .. | .joining .. | .launching .. => true
  | _ => false

/-- The worker registered for an account. -/
def Process.worker (p : Process) (id : String) : Option Worker := (p.active.lookup id).bind (p.workers[·]?)

def Process.isIdleWorkerActive (p : Process) (id : String) : Bool :=
  (p.worker id).any fun w => w.isAlive && !w.stopped

def Worker.stop (w : Worker) : Worker := { w with stopped := true }

/-- `stop()` on the registered worker. -/
def Process.stopActive (p : Process) (id : String) : Process :=
  match p.active.lookup id with
  | some i => { p with workers := p.workers.modify i Worker.stop }
  | none => p

/-- A turn of the first loop of `ensure_idle_workers`. -/
def Process.prune (p : Process) (accounts : List Account) (id : String) : Process :=
  if accounts.all (·.id ≠ id) || (p.worker id).any (fun w => w.stopped || !w.isAlive) then
    { p.stopActive id with active := p.active.erase id, activeFolders := p.activeFolders.erase id }
  else p

/-- A registry without the accounts that are gone. -/
def forget {ν : Type} (accounts : List Account) (m : Map String ν) : Map String ν :=
  (m.keys.filter fun id => accounts.all (·.id ≠ id)).foldl (fun m id => m.erase id) m

/-- How a turn of the main loop of `ensure_idle_workers` goes on. -/
inductive Turn where | next | join | launch
  deriving DecidableEq

/-- The folders: those of a running worker must be the account's. -/
def Process.checkFolders (p : Process) (py : Platform) (acc : Account) : Process × Turn :=
  match p.activeFolders.lookup acc.id with
  | none => (p, .launch)
  | some previous =>
    if previous = folderKey py acc then (p, .launch)
    else match p.active.lookup acc.id with
      | some _ => (p.stopActive acc.id, .join)
      | none => ({ p with activeFolders := p.activeFolders.erase acc.id }, .launch)

/-- The cooldown of an unstable connection. -/
def Process.checkCooldown (p : Process) (py : Platform) (acc : Account) : Process × Turn :=
  match p.retryAfter.lookup acc.id with
  | none => p.checkFolders py acc
  | some (fingerprint, retryAt) =>
    if fingerprint = idleFingerprint py acc ∧ p.clock < retryAt then (p, .next)
    else ({ p with retryAfter := p.retryAfter.erase acc.id }).checkFolders py acc

/-- Accounts pinned to POP3 by mistake are released. -/
def Process.unpin (p : Process) (py : Platform) (acc : Account) : Process :=
  if (acc.source = "imap_gmail" ∨ acc.source = "imap_qq" ∨ acc.source = "imap_outlook") ∨
      py.isOverseasImapHost acc.host ∨ acc.protocol = "imap" then
    { p with pinned := Function.update p.pinned acc.id false }
  else p

/-- A turn of the main loop, up to the `join` or the start of a worker. -/
def Process.ensure (p : Process) (py : Platform) (acc : Account) : Process × Turn :=
  if p.skips acc.id then
    ({ p.stopActive acc.id with activeFolders := p.activeFolders.erase acc.id }, .next)
  else if acc.source = "graph_outlook" ∨ acc.protocol = "pop3" then (p, .next)
  else
    let p := p.unpin py acc
    if p.pinned acc.id then (p, .next)
    else if p.unsupported.lookup acc.id = some (idleFingerprint py acc) then (p, .next)
    else ({ p with unsupported := p.unsupported.erase acc.id }).checkCooldown py acc

def Turn.goesTo (turn : Turn) (acc : Account) (rest accounts : List Account) (now : ℤ) : Main :=
  match turn with
  | .next => .ensuring rest accounts now
  | .join => .joining acc rest accounts now
  | .launch => .launching acc rest accounts now

def newWorker (acc : Account) : Worker := ⟨acc, false, true, 0, .outer⟩

/-- A new thread, registered. -/
def Process.start (p : Process) (py : Platform) (acc : Account) : Process :=
  { p with
    workers := p.workers ++ [newWorker acc]
    active := p.active.insert acc.id p.workers.length
    activeFolders := p.activeFolders.insert acc.id (folderKey py acc) }

def getAccountPollInterval (py : Platform) (acc : Account) (pinned : Bool) : ℤ :=
  match acc.pollInterval with
  | some n => if 0 < n then n else default acc
  | none => default acc
where
  default (acc : Account) : ℤ :=
    if acc.protocol = "pop3" ∨ pinned = true then
      if (acc.source = "imap_gmail" ∨ acc.source = "imap_qq" ∨ acc.source = "imap_outlook") ∨
          py.isOverseasImapHost acc.host then 60
      else 600
    else if (acc.source = "graph_outlook" ∨ acc.source = "imap_163") ∨
        py.lower acc.host = "imap.163.com" ∨ py.lower acc.host = "imap.126.com" then 300
    else 60

/-- The account has not been polled for its interval, and is not skipped. -/
def Process.due (p : Process) (py : Platform) (acc : Account) (now : ℤ) : Bool :=
  (p.lastPoll.lookup acc.id).all (fun last => getAccountPollInterval py acc (p.pinned acc.id) ≤ now - last) &&
    !p.skips acc.id

/-- What a step does, as far as the condition asks: it starts a worker, polls an account, or neither. -/
inductive Move where
  | start (acc : Account)
  | poll (acc : Account)
  | other
  deriving DecidableEq

inductive ProcessStep (py : Platform) : Process → Move → Process → Prop
  -- surroundings: time, the windows of `SyncState`, and its pins
  | tick {p} (d : ℕ) : ProcessStep py p .other { p with clock := p.clock + d }
  | state {p} (skips pinned : String → Bool) : ProcessStep py p .other { p with skips := skips, pinned := pinned }
  -- the threads
  | work {p w w'} (i : ℕ) (hw : p.workers[i]? = some w) (h : WorkerStep (p.skips w.account.id) w w') :
      ProcessStep py p .other { p with workers := p.workers.set i w' }
  | unsupported {p w} (i : ℕ) (hw : p.workers[i]? = some w) (h : w.phase = .connecting)
      (hn : w.enableNoopFallback = false) (hlock : p.main.locks = false) :
      ProcessStep py p .other { p with
        workers := p.workers.set i { w with phase := .done }
        unsupported := p.unsupported.insert w.account.id (idleFingerprint py w.account)
        retryAfter := p.retryAfter.erase w.account.id }
  | cooldown {p w} (i : ℕ) (hw : p.workers[i]? = some w) (h : w.phase = .failing false)
      (he : idleFailureThreshold ≤ w.consecutiveErrors + 1) (hlock : p.main.locks = false) :
      ProcessStep py p .other { p with
        workers := p.workers.set i { w with phase := .done }
        retryAfter := p.retryAfter.insert w.account.id (idleFingerprint py w.account, p.clock + 60) }
  -- `ensure_idle_workers`
  | pass {p} (accounts : List Account) (h : p.main = .idle) :
      ProcessStep py p .other { p with main := .pruning p.active.keys accounts p.clock }
  | prune {p id ids accounts now} (h : p.main = .pruning (id :: ids) accounts now) :
      ProcessStep py p .other { p.prune accounts id with main := .pruning ids accounts now }
  | pruned {p accounts now} (h : p.main = .pruning [] accounts now) :
      ProcessStep py p .other { p with
        unsupported := forget accounts p.unsupported
        retryAfter := forget accounts p.retryAfter
        main := .ensuring accounts accounts now }
  | ensure {p acc rest accounts now} (h : p.main = .ensuring (acc :: rest) accounts now) :
      ProcessStep py p .other { (p.ensure py acc).1 with main := (p.ensure py acc).2.goesTo acc rest accounts now }
  | lingers {p acc rest accounts now} (h : p.main = .joining acc rest accounts now)
      (ha : (p.worker acc.id).any Worker.isAlive = true) :
      ProcessStep py p .other { p with main := .ensuring rest accounts now }
  | joined {p acc rest accounts now} (h : p.main = .joining acc rest accounts now)
      (ha : (p.worker acc.id).any Worker.isAlive = false) :
      ProcessStep py p .other { p with
        active := p.active.erase acc.id
        activeFolders := p.activeFolders.erase acc.id
        main := .launching acc rest accounts now }
  | keep {p acc rest accounts now} (h : p.main = .launching acc rest accounts now)
      (ha : (p.worker acc.id).any Worker.isAlive = true) :
      ProcessStep py p .other { p with
        activeFolders := p.activeFolders.insert acc.id (folderKey py acc)
        main := .ensuring rest accounts now }
  | start {p acc rest accounts now} (h : p.main = .launching acc rest accounts now)
      (ha : (p.worker acc.id).any Worker.isAlive = false) :
      ProcessStep py p (.start acc) { p.start py acc with main := .ensuring rest accounts now }
  -- the poll loop
  | ensured {p accounts now} (h : p.main = .ensuring [] accounts now) :
      ProcessStep py p .other { p with
        lastPoll := forget accounts p.lastPoll
        main := .polling accounts now }
  | managed {p acc rest now} (h : p.main = .polling (acc :: rest) now) (ha : p.isIdleWorkerActive acc.id = true) :
      ProcessStep py p .other { p with lastPoll := p.lastPoll.erase acc.id, main := .polling rest now }
  | passOver {p acc rest now} (h : p.main = .polling (acc :: rest) now) (ha : p.isIdleWorkerActive acc.id = false)
      (hd : p.due py acc now = false) : ProcessStep py p .other { p with main := .polling rest now }
  | poll {p acc rest now} (h : p.main = .polling (acc :: rest) now) (ha : p.isIdleWorkerActive acc.id = false)
      (hd : p.due py acc now = true) : ProcessStep py p (.poll acc) { p with main := .syncing acc rest now }
  | polled {p acc rest now} (h : p.main = .syncing acc rest now) :
      ProcessStep py p .other { p with lastPoll := p.lastPoll.insert acc.id now, main := .polling rest now }
  | finish {p now} (h : p.main = .polling [] now) : ProcessStep py p .other { p with main := .idle }

/-- No thread yet, nothing registered. -/
structure Fresh (p : Process) : Prop where
  workers : p.workers = []
  active : p.active = ∅
  main : p.main = .idle

def aggregator (py : Platform) : System Process Move where
  init := Fresh
  step := ProcessStep py

/-! ### What is asked -/

inductive Thread where
  | main
  | worker (i : ℕ)
  deriving DecidableEq

/-- The thread is inside a sync of the account. -/
def InSync (p : Process) (id : String) : Thread → Prop
  | .main => ∃ acc rest now, p.main = .syncing acc rest now ∧ acc.id = id
  | .worker i => ∃ w, p.workers[i]? = some w ∧ w.account.id = id ∧ w.isSyncing = true

def OneSync (p : Process) : Prop := ∀ id t t', InSync p id t → InSync p id t' → t = t'

/-- A worker of the account has been asked to stop, and is in a sync or on the way into one. -/
def Lingering (p : Process) (id : String) : Prop :=
  ∃ w ∈ p.workers, w.account.id = id ∧ w.stopped = true ∧ w.underway = true

/-- No worker is started, and no account polled, over a lingering worker. -/
def Patient (p : Process) : Move → Prop
  | .start acc | .poll acc => ¬ Lingering p acc.id
  | .other => True

end OneMail.Idle
