import OneMail.Tokens.Stores

/-! Which redemptions present the newest token.

    For each account the persisted token and the snapshots' tokens are copies of the provider's, and
    every step of the aggregator moves them by renewals, pulls and drops (`step_moves`). So in every
    reachable state the log of these decides whether a redemption presents the newest token
    (`redemptions_present_newest`), and what is persisted anew is the newest token then. -/

namespace OneMail.Tokens

open Copies (Cell Note UpToDate Written Sound Move)

variable {w w' : World} {stores : Stores} {file file' : List ConfigEntry} {acc : AccountConfig} {config : Option Config}
  {key : Key} {id rt token : String} {s : ℕ} {readable : Bool} {r : Redemption} {e : Event}

/-! ### The stores -/

theorem configToken_rewrite (h : rewriteConfigRefreshToken file id rt = some file') (id' : String) :
    configToken file' id' = if id' = id then some rt else configToken file id' := by
  induction file generalizing file' with
  | nil => cases h
  | cons entry file ih =>
    rw [rewriteConfigRefreshToken] at h
    split at h
    · rename_i hentry
      rw [← Option.some.inj h]
      by_cases hid : id' = id
      · rw [if_pos hid, configToken, if_pos ⟨hentry.1.trans hid.symm, rfl⟩]
      · have hne : ¬entry.id = id' := fun heq => hid (heq.symm.trans hentry.1)
        rw [if_neg hid, configToken, configToken, if_neg fun hc => hne hc.1, if_neg fun hc => hne hc.1]
    · rename_i hentry
      obtain ⟨rest, hrest, rfl⟩ := Option.map_eq_some_iff.mp h
      rw [configToken, configToken]
      by_cases hhere : entry.id = id' ∧ entry.oauth.isSome
      · have hid : id' ≠ id := fun heq => hentry (heq ▸ hhere)
        rw [if_pos hhere, if_pos hhere, if_neg hid]
      · rw [if_neg hhere, if_neg hhere]
        exact ih hrest

/-- Persisting replaces the token of its account, or changes nothing. -/
theorem persist_persisted (config : Config) (acc : AccountConfig) (rt : String) (write : Write) (stores : Stores)
    (key : Key) : (persistRotatedRefreshToken config acc rt write stores).stores.persisted key =
      if key = acc.key ∧ (persistRotatedRefreshToken config acc rt write stores).applied then some rt
      else stores.persisted key := by
  obtain ⟨managed, id⟩ := key
  obtain ⟨accId, accManaged, refreshToken⟩ := acc
  rw [persistRotatedRefreshToken]
  cases accManaged with
  | true =>
    rw [if_pos rfl]
    split
    · cases managed <;> by_cases hid : id = accId <;> simp [Stores.persisted, AccountConfig.key, hid]
    · simp
  | false =>
    rw [if_neg Bool.false_ne_true]
    split
    · simp
    · split
      · rename_i hfile
        split
        · cases managed <;> simp [Stores.persisted, AccountConfig.key, configToken_rewrite hfile]
        · simp
      · simp

theorem handleRotated_persisted (acc : AccountConfig) (newRt : String) (callback : Option Config) (write : Write)
    (stores : Stores) (key : Key) : (handleRotated acc newRt callback write stores).2.stores.persisted key =
      if key = acc.key ∧ (handleRotated acc newRt callback write stores).2.applied then some newRt
      else stores.persisted key := by
  rw [handleRotated]
  split
  · cases callback with
    | none => simp
    | some config => exact persist_persisted config { acc with refreshToken := newRt } newRt write stores key
  · simp

theorem handleRotated_token (acc : AccountConfig) (newRt : String) (callback : Option Config) (write : Write)
    (stores : Stores) (hne : newRt ≠ "") :
    (handleRotated acc newRt callback write stores).1 = { acc with refreshToken := newRt } := by
  rw [handleRotated]
  split
  · cases callback <;> rfl
  · rename_i hsame
    have heq : newRt = acc.refreshToken := by
      by_contra h
      exact hsame ⟨hne, h⟩
    rw [heq]

/-- What is read again is the persisted token of a static account. -/
theorem latest_persisted {latest : String} (h : latestFromConfig config (w.fileSeen readable) acc = some latest) :
    w.stores.persisted acc.key = some latest := by
  rw [latestFromConfig] at h
  split at h
  · cases h
  · rename_i hstatic
    have hmanaged : acc.userManaged = false := by
      rw [not_or] at hstatic
      simpa using hstatic.2
    have hbind := (Option.filter_eq_some_iff.mp h).1
    rw [World.fileSeen] at hbind
    split at hbind
    · rw [Stores.persisted, AccountConfig.key, hmanaged]
      exact hbind
    · cases hbind

theorem refresh_key (file : Option (List ConfigEntry)) : (refreshRtFromConfig config file acc).key = acc.key := by
  rw [refreshRtFromConfig]
  split <;> rfl

/-! ### Steps as moves of one account's copies -/

open Relation (ReflTransGen)

theorem cell_ext {c c' : Cell ℕ String} (h₁ : c.issued = c'.issued) (h₂ : c.master = c'.master)
    (h₃ : ∀ i, c.copy i = c'.copy i) (h₄ : c.log = c'.log) : c = c' := by
  obtain ⟨_, _, copy, _⟩ := c
  obtain ⟨_, _, copy', _⟩ := c'
  obtain rfl : copy = copy' := funext h₃
  simp_all

theorem cell_fetched (htoken : w.stores.persisted key = some token) (k : Key) :
    (w.fetched s key token).cell k = if k = key then (w.cell k).pulled s else (w.cell k).dropped s := by
  split
  · rename_i hk
    subst hk
    refine cell_ext rfl rfl (fun i => ?_) ?_
    · by_cases hi : i = s
      · subst hi
        simp [World.cell, World.fetched, Cell.pulled, AccountConfig.key, htoken]
      · simp [World.cell, World.fetched, Cell.pulled, hi]
    · simp [World.cell, World.fetched, Cell.pulled]
  · rename_i hk
    refine cell_ext rfl rfl (fun i => ?_) ?_
    · by_cases hi : i = s
      · subst hi
        simp [World.cell, World.fetched, Cell.dropped, AccountConfig.key, Ne.symm hk]
      · simp [World.cell, World.fetched, Cell.dropped, hi]
    · simp [World.cell, World.fetched, Cell.dropped, hk]

theorem cell_reread (hs : w.snapshots s = some acc) (k : Key) : (w.reread s config readable acc).cell k =
    if k = acc.key ∧ (latestFromConfig config (w.fileSeen readable) acc).isSome then (w.cell k).pulled s
    else w.cell k := by
  by_cases hk : k = acc.key
  · subst hk
    rcases hlatest : latestFromConfig config (w.fileSeen readable) acc with - | latest
    · have hacc : w.refreshed config readable acc = acc := by
        rw [World.refreshed, refreshRtFromConfig, hlatest]
      have hsame : Function.update w.snapshots s (some acc) = w.snapshots := by rw [← hs, Function.update_eq_self]
      rw [if_neg (by simp)]
      refine cell_ext rfl rfl (fun i => ?_) ?_
      · simp only [World.cell, World.reread, hacc, hsame]
      · simp [World.cell, World.reread, World.logged, hlatest]
    · have hacc : w.refreshed config readable acc = { acc with refreshToken := latest } := by
        rw [World.refreshed, refreshRtFromConfig, hlatest]
      rw [if_pos (by simp)]
      refine cell_ext rfl rfl (fun i => ?_) ?_
      · by_cases hi : i = s
        · subst hi
          simp [World.cell, World.reread, Cell.pulled, hacc, AccountConfig.key, ← latest_persisted hlatest]
        · simp [World.cell, World.reread, Cell.pulled, hi]
      · simp [World.cell, World.reread, World.logged, Cell.pulled, hlatest]
  · rw [if_neg fun h => hk h.1]
    refine cell_ext rfl rfl (fun i => ?_) ?_
    · by_cases hi : i = s
      · subst hi
        simp [World.cell, World.reread, hs, World.refreshed, refresh_key, Ne.symm hk]
      · simp [World.cell, World.reread, hi]
    · simp [World.cell, World.reread, hk]

theorem cell_rotated (hs : w.snapshots r.snapshot = some acc) (hne : rt ≠ "") (k : Key) :
    (w.rotated r acc rt).cell k = if k = acc.key then (w.cell k).renewed r.snapshot rt
      (handleRotated acc rt (callbackConfig r.guarded r.config acc) r.write w.stores).2.applied else w.cell k := by
  have hpersisted := handleRotated_persisted acc rt (callbackConfig r.guarded r.config acc) r.write w.stores k
  have htoken := handleRotated_token acc rt (callbackConfig r.guarded r.config acc) r.write w.stores hne
  by_cases hk : k = acc.key
  · subst hk
    rw [if_pos rfl]
    refine cell_ext ?_ ?_ (fun i => ?_) ?_
    · simp [World.cell, World.rotated, Cell.renewed]
    · simpa [World.cell, World.rotated, Cell.renewed] using hpersisted
    · by_cases hi : i = r.snapshot
      · subst hi
        simp [World.cell, World.rotated, Cell.renewed, htoken, AccountConfig.key]
      · simp [World.cell, World.rotated, Cell.renewed, hi]
    · simp [World.cell, World.rotated, Cell.renewed]
  · rw [if_neg hk]
    rw [if_neg fun h => hk h.1] at hpersisted
    refine cell_ext ?_ hpersisted (fun i => ?_) ?_
    · simp [World.cell, World.rotated, hk]
    · by_cases hi : i = r.snapshot
      · subst hi
        have hkey : ({ acc with refreshToken := rt } : AccountConfig).key ≠ k := Ne.symm hk
        simp [World.cell, World.rotated, htoken, hs, hkey, Ne.symm hk]
      · simp [World.cell, World.rotated, hi]
    · simp [World.cell, World.rotated, hk]

theorem reread_moves (hs : w.snapshots s = some acc) (k : Key) :
    ReflTransGen Move (w.cell k) ((w.reread s config readable acc).cell k) := by
  rw [cell_reread hs]
  split
  · exact .single .pull
  · exact .refl

theorem reread_snapshot : (w.reread s config readable acc).snapshots s = some (w.refreshed config readable acc) :=
  Function.update_self ..

theorem redeemed_moves (hs : w.snapshots r.snapshot = some acc) (hanswers : w.Answers r acc) (k : Key) :
    ReflTransGen Move (w.cell k) ((w.redeemed r acc).cell k) := by
  have hreread : ReflTransGen Move (w.cell k) ((w.reread r.snapshot r.config r.readable acc).cell k) :=
    reread_moves hs k
  rw [World.redeemed]
  rcases hanswer : r.answer with - | rt
  · exact hreread
  · obtain ⟨-, hfresh, hne⟩ := hanswers rt hanswer
    refine hreread.trans ?_
    dsimp only
    have hkey : (w.refreshed r.config r.readable acc).key = acc.key := refresh_key _
    change ReflTransGen Move _ (World.cell (World.rotated _ r (w.refreshed r.config r.readable acc) rt) k)
    rw [cell_rotated reread_snapshot hne k]
    split
    · rename_i hk
      refine .single (.renew ?_)
      rw [hk, hkey]
      exact hfresh
    · exact .refl

theorem step_moves (h : Step w e w') (k : Key) : ReflTransGen Move (w.cell k) (w'.cell k) := by
  cases h with
  | fetch htoken =>
    rw [cell_fetched htoken]
    split
    · exact .single .pull
    · exact .single .drop
  | reuse hs => exact reread_moves hs k
  | redeem hs hanswers => exact redeemed_moves hs hanswers k

theorem sound_run (h : Transition.Reachable aggregator w) (k : Key) : Sound (w.cell k) := by
  refine h.invariant (I := fun w => Sound (w.cell k)) (fun w h0 => ?_) fun w e w' _ hsound _ hstep =>
    hsound.moves (step_moves hstep k)
  obtain ⟨hnone, hlog, hstart⟩ := h0
  have hcopy : ∀ i v, (w.cell k).copy i = some v → False := by
    intro i v hv
    simp [World.cell, hnone] at hv
  refine ⟨fun v hv => ?_, fun i v hv => (hcopy i v hv).elim, fun v hv => ?_, fun i v hv => (hcopy i v hv).elim⟩
  · show v ∈ w.issued k
    rw [hstart k v hv]
    exact List.mem_singleton.mpr rfl
  · have hnewest : (w.cell k).newest = some v := by
      show (w.issued k).head? = some v
      rw [hstart k v hv]
      rfl
    have hlog' : (w.cell k).log = [] := hlog k
    rw [hlog']
    exact iff_of_true hnewest trivial

/-! ### The newest token -/

/-- In any state, the snapshot presents the newest token exactly when it is current. -/
theorem presents_iff (h : Transition.Reachable aggregator w) (hs : w.snapshots r.snapshot = some acc) :
    PresentsNewest w r acc ↔ Current w r acc := by
  have hsound : Sound ((w.reread r.snapshot r.config r.readable acc).cell acc.key) :=
    (sound_run h acc.key).moves (reread_moves hs acc.key)
  have hcopy : ((w.reread r.snapshot r.config r.readable acc).cell acc.key).copy r.snapshot =
      some (w.presented r acc) := by
    have hkey : (w.refreshed r.config r.readable acc).key = acc.key := refresh_key _
    simp [World.cell, reread_snapshot, hkey, World.presented]
  have hlog : ((w.reread r.snapshot r.config r.readable acc).cell acc.key).log =
      w.logged r.snapshot r.config r.readable acc := Function.update_self ..
  rw [Current, ← hlog]
  exact hsound.copy_newest _ _ hcopy

/-- What a rotation persists is the token that it has brought. -/
theorem rotated_persisted (hchange : (w.rotated r acc rt).stores.persisted key ≠ w.stores.persisted key) :
    (w.rotated r acc rt).stores.persisted key = ((w.rotated r acc rt).issued key).head? := by
  have hpersisted : (w.rotated r acc rt).stores.persisted key = _ :=
    handleRotated_persisted acc rt (callbackConfig r.guarded r.config acc) r.write w.stores key
  split at hpersisted
  · rename_i happlied
    have hissued : (w.rotated r acc rt).issued key = rt :: w.issued acc.key := by
      rw [happlied.1]
      exact Function.update_self ..
    rw [hpersisted, hissued]
    rfl
  · exact absurd hpersisted hchange

/-- A token is persisted only while it is the newest. -/
theorem persisted_step (hstep : Step w e w') (hchange : w'.stores.persisted key ≠ w.stores.persisted key) :
    w'.stores.persisted key = (w'.issued key).head? := by
  cases hstep with
  | fetch _ | reuse _ => exact absurd rfl hchange
  | redeem hs hanswers =>
    rename_i r acc
    rw [World.redeemed] at hchange ⊢
    rcases hanswer : r.answer with - | rt
    · rw [hanswer] at hchange
      exact absurd rfl hchange
    · rw [hanswer] at hchange
      exact rotated_persisted hchange

/-- In every run, a redemption presents the refresh token most recently issued for its account exactly
    when its snapshot is current, and a persisted token is never replaced by one issued earlier. -/
theorem redemptions_present_newest (w : World) (h : Transition.Reachable aggregator w) :
    (∀ r acc, w.snapshots r.snapshot = some acc → (PresentsNewest w r acc ↔ Current w r acc)) ∧
      ∀ e w', Step w e w' → ∀ key, w'.stores.persisted key ≠ w.stores.persisted key →
        w'.stores.persisted key = (w'.issued key).head? :=
  ⟨fun _ _ hs => presents_iff h hs, fun _ _ hstep _ hchange => persisted_step hstep hchange⟩

/-! ### A demonstration -/

/-- A user-managed account in the Worker, a static one in the file, and their first tokens. -/
def demoStart : World where
  stores := ⟨[⟨"gmail-main", some "s0"⟩], fun id => if id = "7" then some "t0" else none⟩
  snapshots := fun _ => none
  issued := fun key => if key = ⟨true, "7"⟩ then ["t0"] else if key = ⟨false, "gmail-main"⟩ then ["s0"] else []
  log := fun _ => []

/-- The IDLE worker (1) and the outbound path (2) take snapshots of the user-managed account. -/
def demoHeld : World := (demoStart.fetched 1 ⟨true, "7"⟩ "t0").fetched 2 ⟨true, "7"⟩ "t0"

def demoRedeem (snapshot : ℕ) (newRt : String) : Redemption :=
  ⟨snapshot, false, some ⟨true⟩, true, some newRt, ⟨true, true⟩⟩

def demoSnapshot (token : String) : AccountConfig := ⟨"7", true, token⟩

theorem demoStart_init : aggregator.init demoStart := by
  refine ⟨fun _ => rfl, fun _ => rfl, fun key token h => ?_⟩
  obtain ⟨managed, id⟩ := key
  cases managed with
  | true =>
    by_cases hid : id = "7"
    · subst hid
      obtain rfl := Option.some.inj h
      rfl
    · simp [demoStart, Stores.persisted, hid] at h
  | false =>
    by_cases hid : id = "gmail-main"
    · subst hid
      obtain rfl := Option.some.inj h
      rfl
    · simp [demoStart, Stores.persisted, configToken, Ne.symm hid] at h

theorem demoHeld_reachable : Transition.Reachable aggregator demoHeld := by
  have hfirst : Transition.Reachable aggregator (demoStart.fetched 1 ⟨true, "7"⟩ "t0") :=
    Transition.Reachable.step (.start demoStart_init) (.fetch rfl)
  exact hfirst.step (.fetch rfl)

theorem redemptions_present_newest_demo :
    (PresentsNewest demoHeld (demoRedeem 1 "t1") (demoSnapshot "t0") ↔
        Current demoHeld (demoRedeem 1 "t1") (demoSnapshot "t0")) ∧
      (demoHeld.redeemed (demoRedeem 1 "t1") (demoSnapshot "t0")).stores.persisted ⟨true, "7"⟩ =
        ((demoHeld.redeemed (demoRedeem 1 "t1") (demoSnapshot "t0")).issued ⟨true, "7"⟩).head? := by
  refine ⟨(redemptions_present_newest demoHeld demoHeld_reachable).1 _ _ rfl,
    (redemptions_present_newest demoHeld demoHeld_reachable).2 (.redeem (demoRedeem 1 "t1")) _
      (.redeem rfl fun newRt hanswer => ?_) _ (by decide)⟩
  obtain rfl := Option.some.inj hanswer
  decide

/-- After the IDLE worker has redeemed its snapshot, the outbound path presents the older token. -/
theorem other_snapshot_presents_older : ∃ w r acc, Transition.Reachable aggregator w ∧
    w.snapshots r.snapshot = some acc ∧ ¬PresentsNewest w r acc := by
  refine ⟨demoHeld.redeemed (demoRedeem 1 "t1") (demoSnapshot "t0"), demoRedeem 2 "t2", demoSnapshot "t0",
    demoHeld_reachable.step (.redeem rfl fun newRt hanswer => ?_), rfl, ?_⟩
  · obtain rfl := Option.some.inj hanswer
    decide
  · unfold PresentsNewest
    decide

end OneMail.Tokens
