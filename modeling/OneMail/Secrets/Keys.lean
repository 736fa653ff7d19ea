import OneMail.Secrets.Stores

/-! The keys under which secrets are stored, and what a stored value means.

    The parts of a key have no colon, so each key is made from one binding. A row of `settings` whose key
    belongs to a secret means one secret and one expiry, HMAC being free of collisions. -/

namespace OneMail.Secrets
open JsString Interleave Table OneTime

/-! ### Keys -/

theorem kind_text_injective : ∀ k k' : PasskeyChallengeKind, k.text = k'.text → k = k'
  | .register, .register, _ | .authenticate, .authenticate, _ => rfl
  | .register, .authenticate, h | .authenticate, .register, h => absurd h (by decide)

theorem colon_not_mem_kind (k : PasskeyChallengeKind) : colon ∉ k.text := by cases k <;> decide

theorem anonymous_ne_numeral (n : ℕ) : js "anonymous" ≠ numeral n := by
  intro h
  have hdigit := isDigit_of_mem_numeral (n := n) (c := 0x61) (h ▸ by decide)
  revert hdigit
  decide

theorem userText_injective : ∀ u u' : Option ℕ, userText u = userText u' → u = u'
  | none, none, _ => rfl
  | none, some n, h => absurd h (anonymous_ne_numeral n)
  | some n, none, h => absurd h.symm (anonymous_ne_numeral n)
  | some _, some _, h => congrArg some (numeral_injective h)

theorem colon_not_mem_user : ∀ u : Option ℕ, colon ∉ userText u
  | none => by decide
  | some n => colon_not_mem_numeral n

theorem challengeKey_some {c : Challenge} {key : JsString} (h : challengeKey c = some key) :
    ∃ origin rpID challenge, encodeURIComponent c.rp.origin = some origin ∧
      encodeURIComponent c.rp.rpID = some rpID ∧ encodeURIComponent c.challenge = some challenge ∧
      key = challengePrefix ++ (c.kind.text ++ colon :: (origin ++ colon :: (rpID ++ colon ::
        (userText c.userId ++ colon :: challenge)))) := by
  simp only [challengeKey, Option.bind_eq_bind, Option.bind_eq_some_iff, Option.pure_def, Option.some.injEq] at h
  obtain ⟨origin, ho, rpID, hr, challenge, hc, rfl⟩ := h
  exact ⟨origin, rpID, challenge, ho, hr, hc, by simp⟩

theorem challengeKey_injective {c c' : Challenge} {key : JsString} (h : challengeKey c = some key)
    (h' : challengeKey c' = some key) : c = c' := by
  obtain ⟨origin, rpID, challenge, ho, hr, hc, hkey⟩ := challengeKey_some h
  obtain ⟨origin', rpID', challenge', ho', hr', hc', hkey'⟩ := challengeKey_some h'
  have htexts := List.append_cancel_left (hkey.symm.trans hkey')
  obtain ⟨hkind, hrest⟩ := colon_parts (colon_not_mem_kind _) (colon_not_mem_kind _) htexts
  obtain ⟨horigin, hrest⟩ :=
    colon_parts (colon_not_mem_encodeURIComponent ho) (colon_not_mem_encodeURIComponent ho') hrest
  obtain ⟨hrpID, hrest⟩ :=
    colon_parts (colon_not_mem_encodeURIComponent hr) (colon_not_mem_encodeURIComponent hr') hrest
  obtain ⟨huser, hchallenge⟩ := colon_parts (colon_not_mem_user _) (colon_not_mem_user _) hrest
  obtain ⟨kind, text, ⟨url, host⟩, userId⟩ := c
  obtain ⟨kind', text', ⟨url', host'⟩, userId'⟩ := c'
  obtain rfl := kind_text_injective _ _ hkind
  obtain rfl := userText_injective _ _ huser
  obtain rfl := encodeURIComponent_injective ho (horigin ▸ ho')
  obtain rfl := encodeURIComponent_injective hr (hrpID ▸ hr')
  obtain rfl := encodeURIComponent_injective hc (hchallenge ▸ hc')
  rfl

theorem stateKey_some {state clientID key : JsString} (h : stateKey state clientID = some key) :
    ∃ s c, encodeURIComponent state = some s ∧ encodeURIComponent clientID = some c ∧
      key = statePrefix ++ (s ++ colon :: c) := by
  simp only [stateKey, Option.bind_eq_bind, Option.bind_eq_some_iff, Option.pure_def, Option.some.injEq] at h
  obtain ⟨s, hs, c, hc, rfl⟩ := h
  exact ⟨s, c, hs, hc, by simp⟩

theorem stateKey_injective {state clientID state' clientID' key : JsString} (h : stateKey state clientID = some key)
    (h' : stateKey state' clientID' = some key) : state = state' ∧ clientID = clientID' := by
  obtain ⟨s, c, hs, hc, rfl⟩ := stateKey_some h
  obtain ⟨s', c', hs', hc', heq⟩ := stateKey_some h'
  obtain ⟨rfl, rfl⟩ := colon_parts (colon_not_mem_encodeURIComponent hs) (colon_not_mem_encodeURIComponent hs')
    (List.append_cancel_left heq)
  exact ⟨encodeURIComponent_injective hs hs', encodeURIComponent_injective hc hc'⟩

theorem verificationKey_some {email key : JsString} (h : verificationKey email = some key) :
    ∃ e, encodeURIComponent email = some e ∧ key = codePrefix ++ e := by
  simp only [verificationKey, Option.bind_eq_bind, Option.bind_eq_some_iff, Option.pure_def, Option.some.injEq] at h
  obtain ⟨e, he, rfl⟩ := h
  exact ⟨e, he, rfl⟩

theorem verificationKey_injective {email email' key : JsString} (h : verificationKey email = some key)
    (h' : verificationKey email' = some key) : email = email' := by
  obtain ⟨e, he, rfl⟩ := verificationKey_some h
  obtain ⟨e', he', heq⟩ := verificationKey_some h'
  obtain rfl := List.append_cancel_left heq
  exact encodeURIComponent_injective he he'

theorem stateKey_ne_verificationKey {state clientID email key : JsString} (h : stateKey state clientID = some key)
    (h' : verificationKey email = some key) : False := by
  obtain ⟨s, c, -, -, rfl⟩ := stateKey_some h
  obtain ⟨e, -, heq⟩ := verificationKey_some h'
  exact absurd (congrArg List.head? heq) (by simp [statePrefix, codePrefix, js])

/-! ### Stored codes -/

/-- A text without lone surrogates. -/
def WellFormed (s : JsString) : Prop := (codePoints s).isSome = true

/-- The digests of two texts are different, whatever the keys. -/
def CollisionFree (hmac : JsString → JsString → JsString) : Prop :=
  ∀ secret secret' m m', WellFormed m → WellFormed m' → hmac secret m = hmac secret' m' → m = m'

theorem codePoints_cons {c : UInt16} (hhigh : isHighSurrogate c = false) (hlow : isLowSurrogate c = false)
    (s : JsString) : codePoints (c :: s) = (codePoints s).map (Char.ofNat c.toNat :: ·) := by
  conv_lhs => unfold codePoints
  simp [hhigh, hlow]

theorem wellFormed_append {s t : JsString} (hs : WellFormed s) (ht : WellFormed t) : WellFormed (s ++ t) := by
  unfold WellFormed at hs ⊢
  fun_induction codePoints s with
  | case1 => exact ht
  | case2 c hc d u hd ih => simpa [codePoints, hc, hd] using ih (by simpa using hs)
  | case3 | case4 | case5 => cases hs
  | case6 c s hc hd ih =>
    rw [List.cons_append, codePoints_cons (by simpa using hc) (by simpa using hd), Option.isSome_map]
    exact ih (by simpa using hs)

/-- Units below the surrogates stand for themselves. -/
theorem wellFormed_of_lt : ∀ {s : JsString}, (∀ c ∈ s, c.toNat < 0xD800) → WellFormed s
  | [], _ => rfl
  | c :: s, h => by
    have hc := h c List.mem_cons_self
    have hs := wellFormed_of_lt (s := s) fun d hd => h d (List.mem_cons_of_mem _ hd)
    have hhigh : isHighSurrogate c = false := by simp [isHighSurrogate]; omega
    have hlow : isLowSurrogate c = false := by simp [isLowSurrogate]; omega
    rwa [WellFormed, codePoints_cons hhigh hlow, Option.isSome_map]

theorem wellFormed_of_key {email key : JsString} (h : verificationKey email = some key) : WellFormed email := by
  obtain ⟨e, he, -⟩ := verificationKey_some h
  obtain ⟨l, hl, -⟩ := Option.map_eq_some_iff.mp he
  rw [WellFormed, hl]
  rfl

theorem wellFormed_message {email code key : JsString} (h : verificationKey email = some key)
    (hcode : sixDigits code = true) : WellFormed (email ++ 0 :: code) := by
  refine wellFormed_append (wellFormed_of_key h) (wellFormed_of_lt fun c hc => ?_)
  rcases List.mem_cons.mp hc with rfl | hc
  · decide
  · rw [sixDigits, Bool.and_eq_true] at hcode
    have hdigit := List.all_eq_true.mp hcode.2 c hc
    simp only [isDigit, Bool.and_eq_true, decide_eq_true_eq, UInt16.le_iff_toNat_le] at hdigit
    have hle : c.toNat ≤ 0x39 := hdigit.2
    omega

variable {hmac : JsString → JsString → JsString}

/-- Under one email a digest belongs to one code. -/
theorem digest_code (hcoll : CollisionFree hmac) {secret secret' email code code' key : JsString}
    (hkey : verificationKey email = some key) (hcode : sixDigits code = true) (hcode' : sixDigits code' = true)
    (h : digestVerificationCode hmac secret email code = digestVerificationCode hmac secret' email code') :
    code = code' := by
  have hm := hcoll _ _ _ _ (wellFormed_message hkey hcode) (wellFormed_message hkey hcode') h
  exact (List.cons.inj (List.append_cancel_left hm)).2

theorem storedCode_injective {e e' : ℕ} {d d' : JsString} (h : storedCode e d = storedCode e' d') : e = e' ∧ d = d' := by
  obtain ⟨hnumeral, hdigest⟩ := colon_parts (colon_not_mem_numeral e) (colon_not_mem_numeral e') h
  exact ⟨numeral_injective hnumeral, hdigest⟩

theorem findIdx_colon {s t : JsString} (h : colon ∉ s) : (s ++ colon :: t).findIdx (· = colon) = s.length := by
  induction s with
  | nil => simp [List.findIdx_cons]
  | cons c s ih =>
    rw [List.mem_cons, not_or] at h
    simp [List.findIdx_cons, Ne.symm h.1, ih h.2]

/-- A value that a code is accepted for is not expired and has its digest. -/
theorem acceptsCode_storedCode {e now : ℕ} {d secret email code : JsString} :
    acceptsCode hmac (storedCode e d) secret email code now = true ↔
      now < e ∧ d ≠ [] ∧ digestVerificationCode hmac secret email code = d := by
  have hsep : (storedCode e d).findIdx (· = colon) = (numeral e).length := findIdx_colon (colon_not_mem_numeral e)
  have htake : (storedCode e d).take (numeral e).length = numeral e := List.take_left
  have hdrop : (storedCode e d).drop ((numeral e).length + 1) = d := by simp [storedCode, List.drop_append]
  have hpos : 0 < (numeral e).length := List.length_pos_of_ne_nil (numeral_ne_nil e)
  have hlt : (numeral e).length < (storedCode e d).length := by simp [storedCode]
  simp [acceptsCode, hsep, htake, hdrop, hpos, hlt, and_assoc]

theorem beforeColon_storedCode (e : ℕ) (d : JsString) : beforeColon (storedCode e d) = numeral e := by
  have hfree : ∀ c ∈ numeral e, (decide (c ≠ colon)) = true := fun c hc =>
    decide_eq_true fun heq => colon_not_mem_numeral e (heq ▸ hc)
  have hmem : colon ∈ numeral e ++ colon :: d := by simp
  rw [beforeColon, storedCode, if_pos hmem, List.takeWhile_append_of_pos hfree]
  simp

end OneMail.Secrets
