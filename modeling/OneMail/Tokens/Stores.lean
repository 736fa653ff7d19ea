import OneMail.Lib.Copies
import OneMail.Lib.Transition

/-! Refresh tokens of the aggregator's OAuth accounts.

    The token of a static account is kept in `config.json`, that of a user-managed account by the
    Worker; every path that redeems holds a snapshot of the account with a token of its own. A
    redemption runs under one lock: a static account's token is read again from the file, presented to
    the provider, replaced in the snapshot by the token that comes back, and that one is persisted. The
    provider takes the newest token only, and answers it with a new one. Persisting may fail, which
    ends the redemption with an error and leaves the snapshot as it is. -/

namespace OneMail.Tokens

open Copies (Cell Note UpToDate Written)

/-- An account: static ones and user-managed ones are apart. -/
structure Key where
  userManaged : Bool
  id : String
  deriving DecidableEq

/-- An entry of `accounts` in `config.json`; `oauth` is its refresh token, if `oauth` is an object. -/
structure ConfigEntry where
  id : String
  oauth : Option String
  deriving DecidableEq

structure AccountConfig where
  id : String
  userManaged : Bool
  refreshToken : String
  deriving DecidableEq

def AccountConfig.key (acc : AccountConfig) : Key := ⟨acc.userManaged, acc.id⟩

structure Config where
  /-- `config_path` is set. -/
  hasPath : Bool
  deriving DecidableEq

structure Stores where
  file : List ConfigEntry
  worker : String → Option String

/-- A write as it goes: whether it takes effect and whether that is noticed. -/
structure Write where
  applied : Bool
  acknowledged : Bool
  deriving DecidableEq

/-- The token of the first entry of the account that has an `oauth` object. -/
def configToken : List ConfigEntry → String → Option String
  | [], _ => none
  | entry :: file, id => if entry.id = id ∧ entry.oauth.isSome then entry.oauth else configToken file id

/-- The persisted token of an account. -/
def Stores.persisted (stores : Stores) (key : Key) : Option String :=
  if key.userManaged then stores.worker key.id else configToken stores.file key.id

/-- The token that `refresh_rt_from_config` puts into the snapshot, if any; `file` is `none` when it
    cannot be read. -/
def latestFromConfig (config : Option Config) (file : Option (List ConfigEntry)) (acc : AccountConfig) :
    Option String :=
  if ¬config.any Config.hasPath ∨ acc.userManaged then none
  else (file.bind fun entries => configToken entries acc.id).filter (· ≠ "")

/-- `refresh_rt_from_config` -/
def refreshRtFromConfig (config : Option Config) (file : Option (List ConfigEntry)) (acc : AccountConfig) :
    AccountConfig :=
  match latestFromConfig config file acc with
  | some latest => { acc with refreshToken := latest }
  | none => acc

/-- `rewrite_config_refresh_token` on the entries; `none` when the account is not found. -/
def rewriteConfigRefreshToken : List ConfigEntry → String → String → Option (List ConfigEntry)
  | [], _, _ => none
  | entry :: file, id, rt =>
    if entry.id = id ∧ entry.oauth.isSome then some ({ entry with oauth := some rt } :: file)
    else (rewriteConfigRefreshToken file id rt).map (entry :: ·)

/-- What persisting has come to: the stores, whether the token is in them, and whether no error is raised. -/
structure Persisted where
  stores : Stores
  applied : Bool
  ok : Bool

/-- `persist_rotated_refresh_token` -/
def persistRotatedRefreshToken (config : Config) (acc : AccountConfig) (rt : String) (write : Write)
    (stores : Stores) : Persisted :=
  if acc.userManaged then
    if (stores.worker acc.id).isSome ∧ write.applied then
      ⟨{ stores with worker := Function.update stores.worker acc.id (some rt) }, true, write.acknowledged⟩
    else ⟨stores, false, false⟩
  else if config.hasPath = false then ⟨stores, false, false⟩
  else
    match rewriteConfigRefreshToken stores.file acc.id rt with
    | some file => if write.applied then ⟨{ stores with file := file }, true, write.acknowledged⟩ else ⟨stores, false, false⟩
    | none => ⟨stores, false, false⟩

/-- The config of the `on_rotated` callback: some callers pass none where nothing could be persisted. -/
def callbackConfig (guarded : Bool) (config : Option Config) (acc : AccountConfig) : Option Config :=
  if guarded then config.filter fun c => c.hasPath || acc.userManaged else config

/-- `_handle_rotated`: the snapshot takes the new token before it is persisted. -/
def handleRotated (acc : AccountConfig) (newRt : String) (callback : Option Config) (write : Write) (stores : Stores) :
    AccountConfig × Persisted :=
  if newRt ≠ "" ∧ newRt ≠ acc.refreshToken then
    let acc := { acc with refreshToken := newRt }
    match callback with
    | some config => (acc, persistRotatedRefreshToken config acc newRt write stores)
    | none => (acc, ⟨stores, false, true⟩)
  else (acc, ⟨stores, false, true⟩)

/-! ### Runs -/

structure World where
  stores : Stores
  /-- The snapshots that the paths hold. -/
  snapshots : ℕ → Option AccountConfig
  /-- The tokens that the provider has issued for each account, the newest first. -/
  issued : Key → List String
  /-- Redemptions and reads of the persisted token, the latest first. -/
  log : Key → List (Note ℕ)

/-- One redemption: who asks, and what happens. -/
structure Redemption where
  snapshot : ℕ
  guarded : Bool
  config : Option Config
  /-- `config.json` can be read. -/
  readable : Bool
  /-- The new token in the provider's answer; `none` for an error. -/
  answer : Option String
  write : Write

inductive Event
  /-- A path takes a snapshot of an account: from the file, or from the Worker's list. -/
  | fetch (snapshot : ℕ) (key : Key)
  /-- A cached access token is used instead of a redemption, after the file has been read again. -/
  | reuse (snapshot : ℕ) (config : Option Config) (readable : Bool)
  | redeem (r : Redemption)

namespace World

/-- The file as this read sees it. -/
def fileSeen (w : World) (readable : Bool) : Option (List ConfigEntry) := if readable then some w.stores.file else none

/-- The snapshot after `refresh_rt_from_config`. -/
def refreshed (w : World) (config : Option Config) (readable : Bool) (acc : AccountConfig) : AccountConfig :=
  refreshRtFromConfig config (w.fileSeen readable) acc

/-- The log after `refresh_rt_from_config`. -/
def logged (w : World) (snapshot : ℕ) (config : Option Config) (readable : Bool) (acc : AccountConfig) : List (Note ℕ) :=
  if (latestFromConfig config (w.fileSeen readable) acc).isSome then .pulled snapshot :: w.log acc.key
  else w.log acc.key

def fetched (w : World) (snapshot : ℕ) (key : Key) (token : String) : World :=
  { w with
    snapshots := Function.update w.snapshots snapshot (some ⟨key.id, key.userManaged, token⟩)
    log := Function.update w.log key (.pulled snapshot :: w.log key) }

def reread (w : World) (snapshot : ℕ) (config : Option Config) (readable : Bool) (acc : AccountConfig) : World :=
  { w with
    snapshots := Function.update w.snapshots snapshot (some (w.refreshed config readable acc))
    log := Function.update w.log acc.key (w.logged snapshot config readable acc) }

/-- The token of the snapshot is replaced by the one that the provider has issued. -/
def rotated (w : World) (r : Redemption) (acc : AccountConfig) (newRt : String) : World :=
  let handled := handleRotated acc newRt (callbackConfig r.guarded r.config acc) r.write w.stores
  { stores := handled.2.stores
    snapshots := Function.update w.snapshots r.snapshot (some handled.1)
    issued := Function.update w.issued acc.key (newRt :: w.issued acc.key)
    log := Function.update w.log acc.key (.renewed r.snapshot handled.2.applied :: w.log acc.key) }

/-- The redemption by a snapshot: read again, present, replace, persist. -/
def redeemed (w : World) (r : Redemption) (acc : AccountConfig) : World :=
  let w := w.reread r.snapshot r.config r.readable acc
  match r.answer with
  | some newRt => w.rotated r (refreshRtFromConfig r.config (w.fileSeen r.readable) acc) newRt
  | none => w

/-- The token that the redemption presents. -/
def presented (w : World) (r : Redemption) (acc : AccountConfig) : String :=
  (w.refreshed r.config r.readable acc).refreshToken

/-- The provider issues new tokens, and only for the newest one. -/
def Answers (w : World) (r : Redemption) (acc : AccountConfig) : Prop :=
  ∀ newRt, r.answer = some newRt →
    (w.issued acc.key).head? = some (w.presented r acc) ∧ newRt ∉ w.issued acc.key ∧ newRt ≠ ""

/-- The copies of one account's token. -/
def cell (w : World) (key : Key) : Cell ℕ String where
  issued := w.issued key
  master := w.stores.persisted key
  copy := fun s => (w.snapshots s).bind fun acc => if acc.key = key then some acc.refreshToken else none
  log := w.log key

end World

inductive Step (w : World) : Event → World → Prop
  | fetch {s : ℕ} {key : Key} {token : String} : w.stores.persisted key = some token →
      Step w (.fetch s key) (w.fetched s key token)
  | reuse {s : ℕ} {config : Option Config} {readable : Bool} {acc : AccountConfig} : w.snapshots s = some acc →
      Step w (.reuse s config readable) (w.reread s config readable acc)
  | redeem {r : Redemption} {acc : AccountConfig} : w.snapshots r.snapshot = some acc → w.Answers r acc →
      Step w (.redeem r) (w.redeemed r acc)

/-- At the start the persisted tokens are the ones in force, and nobody holds a snapshot. -/
def aggregator : Transition.System World Event where
  init := fun w => (∀ s, w.snapshots s = none) ∧ (∀ key, w.log key = []) ∧
    ∀ key token, w.stores.persisted key = some token → w.issued key = [token]
  step := Step

/-! ### The promise, and when it is kept -/

/-- The redemption presents the token most recently issued. -/
def PresentsNewest (w : World) (r : Redemption) (acc : AccountConfig) : Prop :=
  (w.issued acc.key).head? = some (w.presented r acc)

/-- If the file is read again: the last rotation of the account was written to it. Otherwise: the
    snapshot has made the last rotation itself, or has been taken since, of a written one. -/
def Current (w : World) (r : Redemption) (acc : AccountConfig) : Prop :=
  UpToDate r.snapshot (w.logged r.snapshot r.config r.readable acc)

end OneMail.Tokens
