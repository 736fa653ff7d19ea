import OneMail.Secrets.Keys

/-! Secrets are consumed at most once.

    What the stores hold is read off them: an object or a row under the key of a secret means that secret
    until its expiry, and nothing else. Every statement then is a move of a store of one-time secrets. -/

namespace OneMail.Secrets
open JsString Interleave Table OneTime

variable {hmac : JsString → JsString → JsString} {s s' : Store} {c c' : Call} {ev : List (Use Secret)}
  {w : World Store Call (Use Secret)}

/-- What a row of `settings` stands for. -/
inductive Means (hmac : JsString → JsString → JsString) (key value : JsString) : Secret → ℕ → Prop
  | state {state clientID : JsString} {e : ℕ} (hkey : stateKey state clientID = some key) (h : value = numeral e) :
      Means hmac key value (.oauth state clientID) e
  | code (secret : JsString) {email code : JsString} {e : ℕ} (hkey : verificationKey email = some key)
      (hcode : sixDigits code = true) (h : value = storedCode e (digestVerificationCode hmac secret email code)) :
      Means hmac key value (.registration email code) e

/-- The secrets that the stores hold, with their expiry. -/
inductive Holds (hmac : JsString → JsString → JsString) (s : Store) : Secret → ℕ → Prop
  | object {c : Challenge} {key : JsString} {e : ℕ} (hkey : challengeKey c = some key)
      (h : (s.objects key).value = some e) : Holds hmac s (.passkey .object c) e
  | row {c : Challenge} {key : JsString} {e : ℕ} (hkey : challengeKey c = some key) (h : ⟨key, e⟩ ∈ s.challenges) :
      Holds hmac s (.passkey .row c) e
  | setting {key value : JsString} {a : Secret} {e : ℕ} (hmeans : Means hmac key value a e)
      (h : ⟨key, value⟩ ∈ s.settings) : Holds hmac s a e

theorem means_numeral {key state clientID : JsString} {e : ℕ} (h : stateKey state clientID = some key) :
    Means hmac key (numeral e) (.oauth state clientID) e := .state h rfl

theorem Means.slot {key value : JsString} {a : Secret} {e : ℕ} (h : Means hmac key value a e) :
    a.slot = .setting (some key) := by
  cases h with
  | state hkey => rw [Secret.slot, hkey]
  | code _ hkey => rw [Secret.slot, hkey]

/-- A row means one secret. -/
theorem Means.unique (hcoll : CollisionFree hmac) {key value : JsString} {a b : Secret} {e e' : ℕ}
    (h : Means hmac key value a e) (h' : Means hmac key value b e') : b = a ∧ e' = e := by
  cases h with
  | state hkey hvalue =>
    cases h' with
    | state hkey' hvalue' =>
      obtain ⟨rfl, rfl⟩ := stateKey_injective hkey hkey'
      exact ⟨rfl, numeral_injective (hvalue'.symm.trans hvalue)⟩
    | code _ hkey' => exact (stateKey_ne_verificationKey hkey hkey').elim
  | code _ hkey hcode hvalue =>
    cases h' with
    | state hkey' => exact (stateKey_ne_verificationKey hkey' hkey).elim
    | code _ hkey' hcode' hvalue' =>
      obtain rfl := verificationKey_injective hkey hkey'
      obtain ⟨rfl, hdigest⟩ := storedCode_injective (hvalue'.symm.trans hvalue)
      rw [digest_code hcoll hkey hcode hcode' hdigest.symm]
      exact ⟨rfl, rfl⟩

theorem CodeRequest.code_digits (r : CodeRequest) : sixDigits r.code = true := by
  have hvalid := r.valid
  rw [Bool.and_eq_true] at hvalid
  exact hvalid.2

/-! ### Statements as moves -/

/-- What the primary keys say, and that a row under the key of a secret has a value of its kind. -/
structure Typed (hmac : JsString → JsString → JsString) (s : Store) : Prop where
  challengeKeys : (s.challenges.map (·.challengeKey)).Nodup
  keys : (s.settings.map (·.key)).Nodup
  states : ∀ row ∈ s.settings, ∀ state clientID, stateKey state clientID = some row.key →
    ∃ e, Means hmac row.key row.value (.oauth state clientID) e
  codes : ∀ row ∈ s.settings, ∀ email, verificationKey email = some row.key →
    ∃ secret code e, sixDigits code = true ∧
      row.value = storedCode e (digestVerificationCode hmac secret email code)

theorem mem_insertOrReplace {α κ : Type*} [DecidableEq κ] {key : α → κ} {row r : α} {t : List α} :
    r ∈ insertOrReplace key row t ↔ r ∈ t ∧ key r ≠ key row ∨ r = row := by
  simp [insertOrReplace, mem_deleteWhere]

theorem nodup_insertOrReplace {α κ : Type*} [DecidableEq κ] {key : α → κ} {row : α} {t : List α}
    (h : (t.map key).Nodup) : ((insertOrReplace key row t).map key).Nodup := by
  refine nodup_append_key (h.sublist (List.filter_sublist.map _)) fun r hr => ?_
  simpa using (mem_deleteWhere.mp hr).2

/-- Fewer settings stay typed. -/
theorem Typed.delete (h : Typed hmac s) (p : SettingRow → Bool) :
    Typed hmac { s with settings := deleteWhere p s.settings } where
  challengeKeys := h.challengeKeys
  keys := h.keys.sublist (List.filter_sublist.map _)
  states row hrow := h.states row (mem_deleteWhere.mp hrow).1
  codes row hrow := h.codes row (mem_deleteWhere.mp hrow).1

theorem typed_step (h : Statement hmac s c s' c' ev) (ht : Typed hmac s) : Typed hmac s' := by
  cases h with
  | challengePrune | challengeDelete =>
    exact ⟨ht.challengeKeys.sublist (List.filter_sublist.map _), ht.keys, ht.states, ht.codes⟩
  | challengeInsert => exact ⟨nodup_insertOrReplace ht.challengeKeys, ht.keys, ht.states, ht.codes⟩
  | statePrune | stateDelete | reserveDelete | consumeDelete => exact ht.delete _
  | @stateInsert state clientID now key hkey =>
    generalize now + stateTtl = expires
    refine ⟨ht.challengeKeys, nodup_insertOrReplace ht.keys, fun row hrow state' clientID' hkey' => ?_,
      fun row hrow email hkey' => ?_⟩ <;> rcases mem_insertOrReplace.mp hrow with ⟨hrow, -⟩ | rfl
    · exact ht.states row hrow state' clientID' hkey'
    · exact ⟨expires, means_numeral hkey'⟩
    · exact ht.codes row hrow email hkey'
    · exact (stateKey_ne_verificationKey hkey hkey').elim
  | @reserveInsert r now key hkey hnew =>
    refine ⟨ht.challengeKeys, nodup_append_key ht.keys hnew, fun row hrow state clientID hkey' => ?_,
      fun row hrow email hkey' => ?_⟩ <;>
      rcases List.mem_append.mp hrow with hrow | hrow
    · exact ht.states row hrow state clientID hkey'
    · obtain rfl := List.mem_singleton.mp hrow
      exact (stateKey_ne_verificationKey hkey' hkey).elim
    · exact ht.codes row hrow email hkey'
    · obtain rfl := List.mem_singleton.mp hrow
      obtain rfl := verificationKey_injective hkey hkey'
      exact ⟨r.secret, r.code, now + codeTtl, r.code_digits, rfl⟩
  | _ => exact ⟨ht.challengeKeys, ht.keys, ht.states, ht.codes⟩

theorem holds_clock {t : ℕ} {a : Secret} {e : ℕ} (h : Holds hmac { s with clock := t } a e) : Holds hmac s a e := by
  cases h with
  | object hkey h => exact .object hkey h
  | row hkey h => exact .row hkey h
  | setting hmeans h => exact .setting hmeans h

theorem holds_setObject {key : JsString} {o : ChallengeObject} {a : Secret} {e : ℕ}
    (h : Holds hmac (s.setObject key o) a e) :
    (∃ c, challengeKey c = some key ∧ a = .passkey .object c ∧ o.value = some e) ∨
      Holds hmac s a e ∧ a.slot ≠ .object (some key) := by
  cases h with
  | @object c key' _ hkey' hvalue =>
    by_cases heq : key' = key
    · subst heq
      simp only [Store.setObject, Function.update_self] at hvalue
      exact .inl ⟨c, hkey', rfl, hvalue⟩
    · simp only [Store.setObject, Function.update_of_ne heq] at hvalue
      exact .inr ⟨.object hkey' hvalue, by simp [Secret.slot, hkey', heq]⟩
  | row hkey' hrow => exact .inr ⟨.row hkey' hrow, by simp [Secret.slot]⟩
  | setting hmeans hrow => exact .inr ⟨.setting hmeans hrow, by simp [hmeans.slot]⟩

theorem holds_challenges {t : List ChallengeRow} {a : Secret} {e : ℕ}
    (h : Holds hmac { s with challenges := t } a e) :
    (∃ c key, challengeKey c = some key ∧ a = .passkey .row c ∧ ⟨key, e⟩ ∈ t) ∨
      Holds hmac s a e ∧ ∀ key, a.slot ≠ .challenge key := by
  cases h with
  | @object c _ _ hkey' hvalue => exact .inr ⟨.object hkey' hvalue, by simp [Secret.slot]⟩
  | row hkey' hrow => exact .inl ⟨_, _, hkey', rfl, hrow⟩
  | setting hmeans hrow => exact .inr ⟨.setting hmeans hrow, by simp [hmeans.slot]⟩

theorem holds_settings {t : List SettingRow} {a : Secret} {e : ℕ}
    (h : Holds hmac { s with settings := t } a e) :
    (∃ key value, Means hmac key value a e ∧ ⟨key, value⟩ ∈ t) ∨
      Holds hmac s a e ∧ ∀ key, a.slot ≠ .setting key := by
  cases h with
  | object hkey' hvalue => exact .inr ⟨.object hkey' hvalue, by simp [Secret.slot]⟩
  | row hkey' hrow => exact .inr ⟨.row hkey' hrow, by simp [Secret.slot]⟩
  | setting hmeans hrow => exact .inl ⟨_, _, hmeans, hrow⟩

/-- A new row under a key takes the place of the one that was there. -/
theorem holds_insertSetting (hcoll : CollisionFree hmac) {t : List SettingRow} {key value : JsString} {a : Secret}
    {e : ℕ} (hmeans : Means hmac key value a e)
    (hmem : ∀ row ∈ t, row ∈ s.settings ∧ row.key ≠ key ∨ row = ⟨key, value⟩) {b : Secret} {e' : ℕ}
    (h : Holds hmac { s with settings := t } b e') : b = a ∧ e' = e ∨ Holds hmac s b e' ∧ b.slot ≠ a.slot := by
  rcases holds_settings h with ⟨key', value', hmeans', hrow⟩ | ⟨hold, hslot⟩
  · rcases hmem _ hrow with ⟨hrow, hne⟩ | heq
    · refine .inr ⟨.setting hmeans' hrow, ?_⟩
      rw [hmeans'.slot, hmeans.slot]
      simpa using hne
    · obtain ⟨rfl, rfl⟩ := SettingRow.mk.inj heq
      exact .inl (hmeans.unique hcoll hmeans')
  · exact .inr ⟨hold, hmeans.slot ▸ hslot _⟩

/-- Rows that are deleted are no longer held; with its row a secret leaves its slot. -/
theorem holds_deleteSetting {p : SettingRow → Bool} {b : Secret} {e' : ℕ}
    (h : Holds hmac { s with settings := deleteWhere p s.settings } b e') :
    Holds hmac s b e' ∧ ∀ row ∈ s.settings, p row = true → (s.settings.map (·.key)).Nodup →
      b.slot ≠ .setting (some row.key) := by
  rcases holds_settings h with ⟨key', value', hmeans', hrow⟩ | ⟨hold, hslot⟩
  · obtain ⟨hrow, hkept⟩ := mem_deleteWhere.mp hrow
    refine ⟨.setting hmeans' hrow, fun row hrow' hp hkeys heq => ?_⟩
    rw [hmeans'.slot] at heq
    obtain rfl := eq_of_key hkeys hrow' hrow (by simpa using heq.symm)
    rw [hp] at hkept
    cases hkept
  · exact ⟨hold, fun row _ _ _ => hslot _⟩

/-- Every statement is a move of a store of one-time secrets. -/
theorem statement_move (hcoll : CollisionFree hmac) (h : Statement hmac s c s' c' ev) (ht : Typed hmac s) :
    Move Secret.slot (Holds hmac s) (Holds hmac s') ev := by
  cases h with
  | @objectStore ch expiresAt now key hkey hnow =>
    refine .store _ _ fun b e hb => ?_
    have hslot : (Secret.passkey .object ch).slot = .object (some key) := by rw [Secret.slot, hkey]
    rcases holds_setObject hb with ⟨c', hkey', rfl, hvalue⟩ | ⟨hold, hne⟩
    · obtain rfl := challengeKey_injective hkey hkey'
      exact .inl ⟨rfl, (Option.some.inj hvalue).symm⟩
    · exact .inr ⟨hold, hslot ▸ hne⟩
  | @objectConsume ch now key expiry hkey hvalue hnow =>
    refine .consume _ expiry now (.object hkey hvalue) hnow fun b e hb => ?_
    have hslot : (Secret.passkey .object ch).slot = .object (some key) := by rw [Secret.slot, hkey]
    rcases holds_setObject hb with ⟨-, -, -, hnone⟩ | ⟨hold, hne⟩
    · cases hnone
    · exact ⟨hold, hslot ▸ hne⟩
  | objectExpired | objectStoreExpired | alarm =>
    refine .drop fun b e hb => ?_
    rcases holds_setObject hb with ⟨-, -, -, hnone⟩ | ⟨hold, -⟩
    · cases hnone
    · exact hold
  | challengePrune =>
    refine .drop fun b e hb => ?_
    rcases holds_challenges hb with ⟨c', key', hkey', rfl, hrow⟩ | ⟨hold, -⟩
    · exact .row hkey' (mem_deleteWhere.mp hrow).1
    · exact hold
  | @challengeInsert ch now key hkey =>
    refine .store _ _ fun b e hb => ?_
    have hslot : (Secret.passkey .row ch).slot = .challenge (some key) := by rw [Secret.slot, hkey]
    rcases holds_challenges hb with ⟨c', key', hkey', rfl, hrow⟩ | ⟨hold, hne⟩
    · rcases mem_insertOrReplace.mp hrow with ⟨hrow, hne⟩ | heq
      · refine .inr ⟨.row hkey' hrow, ?_⟩
        rw [hslot, Secret.slot, hkey']
        simpa using hne
      · obtain ⟨rfl, rfl⟩ := ChallengeRow.mk.inj heq
        obtain rfl := challengeKey_injective hkey hkey'
        exact .inl ⟨rfl, rfl⟩
    · exact .inr ⟨hold, hslot ▸ hne _⟩
  | @challengeDelete ch now key hkey hex =>
    obtain ⟨r, hr, rfl, hlt⟩ := hex
    refine .consume _ r.expiresAt now (.row hkey hr) hlt fun b e hb => ?_
    have hslot : (Secret.passkey .row ch).slot = .challenge (some r.challengeKey) := by rw [Secret.slot, hkey]
    rcases holds_challenges hb with ⟨c', key', hkey', rfl, hrow⟩ | ⟨hold, hne⟩
    · obtain ⟨hrow, hkept⟩ := mem_deleteWhere.mp hrow
      refine ⟨.row hkey' hrow, fun heq => ?_⟩
      rw [hslot, Secret.slot, hkey'] at heq
      obtain rfl := eq_of_key ht.challengeKeys hr hrow (by simpa using heq.symm)
      simp [hlt] at hkept
    · exact ⟨hold, hslot ▸ hne _⟩
  | statePrune | reserveDelete => exact .drop fun b e hb => (holds_deleteSetting hb).1
  | @stateInsert state clientID now key hkey =>
    refine .store _ _ fun b e hb => ?_
    exact holds_insertSetting hcoll (means_numeral hkey) (fun row => mem_insertOrReplace.mp) hb
  | @stateDelete state clientID key now hkey hex =>
    obtain ⟨r, hr, rfl, hlt⟩ := hex
    obtain ⟨expires, hmeans⟩ := ht.states r hr state clientID hkey
    refine .consume _ expires now (.setting hmeans hr) ?_ fun b e hb => ?_
    · cases hmeans with
      | state _ hvalue =>
        rw [hvalue, castInteger_numeral] at hlt
        exact_mod_cast hlt
    · obtain ⟨hold, hne⟩ := holds_deleteSetting hb
      exact ⟨hold, hmeans.slot ▸ hne r hr (by simp [hlt]) ht.keys⟩
  | @reserveInsert r now key hkey hnew =>
    refine .store _ _ fun b e hb => ?_
    refine holds_insertSetting hcoll (.code r.secret hkey r.code_digits rfl) (fun row hrow => ?_) hb
    rcases List.mem_append.mp hrow with hrow | hrow
    · exact .inl ⟨hrow, hnew row hrow⟩
    · exact .inr (List.mem_singleton.mp hrow)
  | @consumeDelete r now storedValue key hkey haccept hrow =>
    obtain ⟨secret, code, e, hcode, hvalue⟩ := ht.codes _ hrow r.email hkey
    obtain rfl : storedValue = _ := hvalue
    obtain ⟨hnow, -, hdigest⟩ := acceptsCode_storedCode.mp haccept
    obtain rfl := digest_code hcoll hkey r.code_digits hcode hdigest
    have hmeans : Means hmac key _ (.registration r.email r.code) e := .code secret hkey r.code_digits rfl
    refine .consume _ e now (.setting hmeans hrow) hnow fun b e hb => ?_
    obtain ⟨hold, hne⟩ := holds_deleteSetting hb
    exact ⟨hold, hmeans.slot ▸ hne _ hrow (by simp) ht.keys⟩
  | tick => exact .drop fun b e hb => holds_clock hb
  | _ => exact .drop fun b e hb => hb

/-! ### Runs -/

/-- The clock reading that a reservation compares with. -/
def Call.reading : Call → ℕ
  | .reserveDelete _ now => now
  | _ => 0

/-- The statements of `reserveRegistrationVerifyCode`. -/
def Call.reserves : Call → Bool
  | .reserveDelete _ _ | .reserveInsert _ _ => true
  | _ => false

theorem statement_clock (h : Statement hmac s c s' c' ev) (hread : c.reading ≤ s.clock) :
    s.clock ≤ s'.clock ∧ c'.reading ≤ s'.clock := by
  cases h with
  | tick d => exact ⟨Nat.le_add_right _ _, Nat.zero_le _⟩
  | reserve => exact ⟨Nat.le_refl _, Nat.le_refl _⟩
  | _ => exact ⟨Nat.le_refl _, Nat.zero_le _⟩

/-- A reservation leaves a live code in its place. -/
theorem reserve_keeps_code (h : Statement hmac s c s' c' ev) (hres : c.reserves = true) (hread : c.reading ≤ s.clock)
    {email code : JsString} {e : ℕ} (hlive : Holds hmac s (.registration email code) e) (hfresh : s.clock < e) :
    Holds hmac s' (.registration email code) e := by
  cases hlive with
  | @setting key value _ _ hmeans hrow =>
    cases h with
    | @reserveDelete r now key' hkey =>
      refine .setting hmeans (mem_deleteWhere.mpr ⟨hrow, ?_⟩)
      cases hmeans with
      | code secret _ _ hvalue =>
        have hnow : now ≤ s.clock := hread
        have hlate : ¬ (e : ℤ) ≤ now := by omega
        simp [hvalue, beforeColon_storedCode, hlate]
    | reserveInsert => exact .setting hmeans (List.mem_append_left _ hrow)
    | _ => cases hres

/-- One code is held for an email. -/
theorem holds_code_unique (hcoll : CollisionFree hmac) (ht : Typed hmac s) {email code code' : JsString} {e e' : ℕ}
    (h : Holds hmac s (.registration email code) e) (h' : Holds hmac s (.registration email code') e') :
    code' = code ∧ e' = e := by
  cases h with
  | setting hmeans hrow =>
    cases h' with
    | setting hmeans' hrow' =>
      have hslot := hmeans.slot.symm.trans hmeans'.slot
      obtain ⟨rfl, rfl⟩ := SettingRow.mk.inj (eq_of_key ht.keys hrow hrow' (by simpa using hslot))
      obtain ⟨hsecret, he⟩ := hmeans.unique hcoll hmeans'
      exact ⟨(Secret.registration.inj hsecret).2, he⟩

/-- What holds in every state that a run of stores and uses reaches. -/
structure Inv (hmac : JsString → JsString → JsString) (w : World Store Call (Use Secret)) : Prop where
  singleUse : SingleUse Secret.slot w.trace
  held : Held Secret.slot (Holds hmac w.store) w.trace
  typed : Typed hmac w.store
  reading : ∀ i, (w.pc i).reading ≤ w.store.clock

/-- A step of a request is a move, also when its answer is lost. -/
theorem step_move (hcoll : CollisionFree hmac) (h : SecretStep hmac s c s' c' ev) (ht : Typed hmac s)
    (hread : c.reading ≤ s.clock) :
    Move Secret.slot (Holds hmac s) (Holds hmac s') ev ∧ Typed hmac s' ∧ s.clock ≤ s'.clock ∧ c'.reading ≤ s'.clock := by
  cases h with
  | answered h => exact ⟨statement_move hcoll h ht, typed_step h ht, statement_clock h hread⟩
  | unanswered h =>
    exact ⟨(statement_move hcoll h ht).unanswered, typed_step h ht, (statement_clock h hread).1, Nat.zero_le _⟩
  | stop => exact ⟨.drop fun _ _ h => h, ht, Nat.le_refl _, Nat.zero_le _⟩

theorem inv (hcoll : CollisionFree hmac) (h : Reachable (secrets hmac) w) : Inv hmac w := by
  refine Reach.invariant (I := Inv hmac) (fun s hs => ?_) ?_ h
  · refine ⟨trivial, fun a e ha => ?_, ⟨by simp [hs.challenges], hs.keys, ?_, ?_⟩, fun i => Nat.zero_le _⟩
    · cases ha with
      | object _ hvalue => simp [hs.objects] at hvalue
      | row _ hrow => simp [hs.challenges] at hrow
      | setting hmeans hrow =>
        cases hmeans with
        | state hkey => exact absurd hkey (hs.states _ hrow _ _)
        | code _ hkey => exact absurd hkey (hs.codes _ hrow _)
    · exact fun row hrow state clientID hkey => absurd hkey (hs.states row hrow state clientID)
    · exact fun row hrow email hkey => absurd hkey (hs.codes row hrow email)
  intro w i s' l' ev _ hinv _ hst
  obtain ⟨hmove, ht, hclock, hread⟩ := step_move hcoll hst hinv.typed (hinv.reading i)
  refine ⟨hmove.singleUse hinv.held hinv.singleUse, hmove.held hinv.held, ht, fun j => ?_⟩
  by_cases hj : j = i
  · subst hj
    rwa [advance_pc_self]
  · rw [advance_pc_ne _ _ _ _ hj]
    exact (hinv.reading j).trans hclock

/-- Every use is of the secret, with its binding, that the last event of its slot has stored, read the clock before
    the expiry, and a reservation never takes the place of a live code. -/
structure OneTimeUse (hmac : JsString → JsString → JsString) (w : World Store Call (Use Secret)) : Prop where
  once : ∀ later a now earlier, w.trace = later ++ .consumed a now :: earlier →
    ∃ expires since before, earlier = since ++ .stored a expires :: before ∧ now < expires ∧
      ∀ e ∈ since, e.secret.slot ≠ a.slot
  unreplaced : ∀ i s' c' ev, (w.pc i).reserves = true → SecretStep hmac w.store (w.pc i) s' c' ev →
    ∀ email code e, Holds hmac w.store (.registration email code) e → w.store.clock < e →
      ∀ code' e', Holds hmac s' (.registration email code') e' ↔ code' = code ∧ e' = e

/-- A storage key belongs to one binding. -/
structure KeysInjective : Prop where
  challenge : ∀ c c' key, challengeKey c = some key → challengeKey c' = some key → c = c'
  state : ∀ state clientID state' clientID' key, stateKey state clientID = some key →
    stateKey state' clientID' = some key → state = state' ∧ clientID = clientID'
  code : ∀ email email' key, verificationKey email = some key → verificationKey email' = some key → email = email'

/-- Along every run every secret is consumed at most once, as it was stored. -/
theorem secrets_consumed_once {w : World Store Call (Use Secret)} (hcoll : CollisionFree hmac)
    (h : Reachable (secrets hmac) w) : OneTimeUse hmac w ∧ KeysInjective := by
  have hinv := inv hcoll h
  refine ⟨⟨fun later a now earlier hτ => hinv.singleUse.between hτ, fun i s' c' ev hres hst email code e hlive hfresh
    code' e' => ?_⟩, ⟨fun _ _ _ => challengeKey_injective, fun _ _ _ _ _ => stateKey_injective,
      fun _ _ _ => verificationKey_injective⟩⟩
  have hkept : Holds hmac s' (.registration email code) e := by
    cases hst with
    | answered h => exact reserve_keeps_code h hres (hinv.reading i) hlive hfresh
    | unanswered h => exact reserve_keeps_code h hres (hinv.reading i) hlive hfresh
    | stop => exact hlive
  have ht := (step_move hcoll hst hinv.typed (hinv.reading i)).2.1
  constructor
  · exact holds_code_unique hcoll ht hkept
  · rintro ⟨rfl, rfl⟩
    exact hkept

/-! ### A code -/

def demoRequest : CodeRequest := ⟨js "k", js "a@example.org", js "123456", by decide⟩

/-- HMAC-SHA-256 under the key `k` of the email and the code above; other texts are only told apart. -/
def demoHmac (_secret message : JsString) : JsString :=
  if message = js "a@example.org" ++ 0 :: js "123456" then
    js "38f626ad5b22bdc2b21fa46b9af34c9d6affa364f73d070a2c5dde11628860c4"
  else js "x" ++ message

theorem demoHmac_collisionFree : CollisionFree demoHmac := by
  intro _ _ m m' _ _ h
  have hmark {m : JsString} : js "38f626ad5b22bdc2b21fa46b9af34c9d6affa364f73d070a2c5dde11628860c4" ≠ js "x" ++ m :=
    fun heq => absurd (congrArg List.head? heq) (by simp [js])
  unfold demoHmac at h
  split at h <;> split at h
  · exact ‹m = _›.trans ‹m' = _›.symm
  · exact absurd h hmark
  · exact absurd h.symm hmark
  · exact List.append_cancel_left h

def demoStore : Store := ⟨1000, fun _ => ⟨none, none⟩, [], []⟩

theorem demoStore_initial : Initial demoStore :=
  ⟨fun _ => rfl, rfl, by decide, fun _ h => absurd h List.not_mem_nil, fun _ h => absurd h List.not_mem_nil⟩

theorem demo_key : verificationKey demoRequest.email = some (js "registration_verify_code:a%40example.org") := by
  decide +kernel

/-- The row of the code, reserved at the start. -/
def demoRow : SettingRow :=
  ⟨js "registration_verify_code:a%40example.org",
    storedCode (demoStore.clock + codeTtl)
      (digestVerificationCode demoHmac demoRequest.secret demoRequest.email demoRequest.code)⟩

theorem demoRow_accepted :
    acceptsCode demoHmac demoRow.value demoRequest.secret demoRequest.email demoRequest.code demoStore.clock = true := by
  have hlt : demoStore.clock < demoStore.clock + codeTtl := Nat.lt_add_of_pos_right (by decide)
  exact acceptsCode_storedCode.mpr ⟨hlt, by decide, rfl⟩

/-- A code is reserved and then used. -/
theorem secrets_consumed_once_demo : ∃ w : World Store Call (Use Secret),
    .consumed (.registration demoRequest.email demoRequest.code) demoStore.clock ∈ w.trace ∧
      OneTimeUse demoHmac w ∧ KeysInjective := by
  have h : Reachable (secrets demoHmac) ⟨demoStore, fun _ => .idle, []⟩ := .start demoStore_initial
  have h := h.next 0 trivial (.answered (.reserve demoRequest))
  have h := h.next 0 trivial (.answered (.reserveDelete (r := demoRequest) demo_key))
  have h := h.next 0 trivial (.answered (.reserveInsert (r := demoRequest) demo_key (by decide)))
  have h := h.next 1 trivial (.answered (.consume demoRequest))
  have hmem : demoRow ∈ ([] : List SettingRow) ++ [demoRow] := List.mem_cons_self
  have h := h.next 1 trivial (.answered (.consumeSelect (r := demoRequest) demo_key demoRow hmem rfl))
  have h := h.next 1 trivial (.answered (.consumeDelete (r := demoRequest) demo_key demoRow_accepted hmem))
  exact ⟨_, List.mem_cons_self, secrets_consumed_once demoHmac_collisionFree h⟩

end OneMail.Secrets
