import OneMail.Admin.Lockout

/-! What the admin counter counts.

    A failure is recorded by a read and a later write of the counter. As long as no other failure is
    recorded in between, every failure counts, and after `maxFailures` of them nothing that carries a
    credential is looked at any more. Failures that overlap count as one. -/

namespace OneMail.Admin
open JsString Interleave

variable {k : Key} {w : World Store Call Event}

/-- The completed calls of `recordAdminFailure` of a key. -/
def completed (k : Key) (trace : List Event) : ℕ := trace.count (.recorded k)

/-- No request of the client succeeds in the window: its counter is not deleted. -/
def NoSuccess (k : Key) (w : World Store Call Event) (i : ℕ) : Prop := w.pc i ≠ .dropping k

/-- A `put` of the counter finds the number that its call has read, or it writes the limit. -/
def Fresh (k : Key) (w : World Store Call Event) (i : ℕ) : Prop :=
  ∀ n, w.pc i = .counted k n → n = w.store.count k ∨ maxFailures ≤ n + 1

/-- After `maxFailures` completed records the client is locked out, and every credential that was looked at
    in the window was looked at before. -/
structure CountsEvery (k : Key) (w : World Store Call Event) : Prop where
  locked : maxFailures ≤ completed k w.trace → isAdminLockedOut (w.store.count k) = true
  refused : maxFailures ≤ completed k w.trace → ∀ input : AdminAuthCheckInput,
    (input.hasAdminAuth || input.hasAccessToken) = true →
      decideAdminAuth input (w.store.count k) = .refuse 429 false .rateLimit
  bounded : Historic (fun earlier e => e = .evaluated k → completed k earlier < maxFailures) w.trace

theorem completed_append (ev trace : List Event) :
    completed k (ev ++ trace) = completed k ev + completed k trace := List.count_append

theorem completed_gate (guess : Guess) (key : Key) (count : ℤ) :
    completed k (gateEvents guess key count) = 0 := by
  unfold gateEvents
  split
  · simp [completed]
  · split <;> simp [completed]

/-- What a step makes of the counter of a key, and how many records of the key it completes. -/
theorem step_count {s s' : Store} {c c' : Call} {ev : List Event} (h : LockoutStep s c s' c' ev)
    (hdrop : c ≠ .dropping k) :
    s'.count k = s.count k ∧ completed k ev = 0 ∨
      ∃ n, c = .counted k n ∧ s'.count k = n + 1 ∧ completed k ev = 1 := by
  cases h with
  | gate => exact .inl ⟨rfl, completed_gate _ _ _⟩
  | @put key n =>
    by_cases hkey : key = k
    · subst hkey
      exact .inr ⟨n, rfl, by simp [Store.count, Store.put], by simp [completed]⟩
    · refine .inl ⟨?_, ?_⟩
      · simp [Store.count, Store.put, Function.update_of_ne (Ne.symm hkey)]
      · simp [completed, hkey]
  | @drop key =>
    have hkey : key ≠ k := fun heq => hdrop (by rw [heq])
    exact .inl ⟨by simp [Store.count, Store.put, Function.update_of_ne hkey.symm], rfl⟩
  | _ => exact .inl ⟨rfl, rfl⟩

/-- The counter keeps up with the records, up to the limit. -/
theorem counts (h : Reach lockout (fun w i => NoSuccess k w i ∧ Fresh k w i) w) :
    min (completed k w.trace) maxFailures ≤ w.store.count k := by
  refine Reach.invariant (I := fun w => min (completed k w.trace) maxFailures ≤ w.store.count k) ?_ ?_ h
  · intro s _
    simp [completed]
  · intro w i s' l' ev _ ih ⟨hsuccess, hfresh⟩ hst
    rw [advance_trace, advance_store, completed_append]
    rcases step_count hst hsuccess with ⟨hcount, hev⟩ | ⟨n, hpc, hcount, hev⟩
    · rw [hcount, hev]
      omega
    · rw [hcount, hev]
      rcases hfresh n hpc with rfl | hmax <;> omega

/-- A credential is looked at only while the counter is below the limit. -/
theorem evaluated_below {s s' : Store} {c c' : Call} {ev : List Event} (h : LockoutStep s c s' c' ev)
    (hev : .evaluated k ∈ ev) : s.count k < maxFailures ∧ ev = [.evaluated k] := by
  cases h with
  | @gate ip guess key =>
    unfold gateEvents at hev ⊢
    split at hev
    · simp at hev
    · rename_i hopen
      split at hev
      · rename_i hcred
        have hkey : k = key := by simpa using hev
        subst hkey
        refine ⟨?_, by rw [if_neg hopen, if_pos hcred]⟩
        by_contra hle
        exact hopen (verdict_locked hcred (isAdminLockedOut_of_le (not_lt.mp hle)))
      · cases hev
  | put => simp at hev
  | _ => cases hev

def someKey : Key := ⟨js "192.0.2.1", 0⟩

/-- The counter of the key is `n`, in its window. -/
def storing (n : ℕ) : Store := ⟨fun key => if key = someKey ∧ n ≠ 0 then some n else none, 0⟩

theorem storing_count (n : ℕ) : (storing n).count someKey = n := by
  by_cases hn : n = 0 <;> simp [storing, Store.count, hn]

theorem storing_put (m n : ℕ) : (storing m).put someKey (some (n + 1)) = storing (n + 1) := by
  simp only [storing, Store.put, Store.mk.injEq, and_true]
  funext key
  by_cases hkey : key = someKey <;> simp [Function.update, hkey]

/-- A login with a wrong password gets as far as the counter of its own record. -/
theorem login_counted {C : World Store Call Event → ℕ → Prop} {i n : ℕ} (h : Reach lockout C w)
    (hC : ∀ u : World Store Call Event, (∀ m, u.pc i ≠ .counted someKey m) → u.pc i ≠ .dropping someKey → C u i)
    (hs : w.store = storing n) (hn : n < maxFailures) (hidle : w.pc i = .idle) :
    ∃ w', Reach lockout C w' ∧ w'.store = storing n ∧ completed someKey w'.trace = completed someKey w.trace ∧
      w'.pc i = .counted someKey n ∧ ∀ j, j ≠ i → w'.pc j = w.pc j := by
  have hkey : (storing n).bucketKey someKey.ip = someKey := by simp [Store.bucketKey, someKey, storing]
  have hbelow : isAdminLockedOut ((storing n).count someKey) = false := by
    rw [storing_count, isAdminLockedOut, Bool.or_eq_false_iff, decide_eq_false_iff_not, decide_eq_false_iff_not]
    omega
  have hverdict : (Guess.login false).verdict ((storing n).count someKey) = .failed true := by
    rw [Guess.verdict, if_neg (by simp [hbelow]), if_neg Bool.false_ne_true]
  obtain ⟨w₁, h₁, hs₁, ht₁, hp₁, ho₁⟩ := h.move i (hC w (by simp [hidle]) (by simp [hidle])) hs hidle
    (.arrive someKey.ip (.login false))
  obtain ⟨w₂, h₂, hs₂, ht₂, hp₂, ho₂⟩ := h₁.move i (hC w₁ (by simp [hp₁]) (by simp [hp₁])) hs₁ hp₁ .gate
  rw [hkey, hverdict] at hp₂
  obtain ⟨w₃, h₃, hs₃, ht₃, hp₃, ho₃⟩ :=
    h₂.move i (hC w₂ (by simp [hp₂, afterGate]) (by simp [hp₂, afterGate])) hs₂ hp₂ .beginRecord
  obtain ⟨w₄, h₄, hs₄, ht₄, hp₄, ho₄⟩ := h₃.move i (hC w₃ (by simp [hp₃]) (by simp [hp₃])) hs₃ hp₃ .get
  rw [hkey, storing_count] at hp₄
  refine ⟨w₄, h₄, hs₄, ?_, hp₄, fun j hj => by rw [ho₄ j hj, ho₃ j hj, ho₂ j hj, ho₁ j hj]⟩
  rw [ht₄, ht₃, ht₂, ht₁, List.nil_append, List.nil_append, completed_append, completed_gate, Nat.zero_add,
    List.nil_append]

theorem atStart {C : World Store Call Event → ℕ → Prop} : Reach lockout C ⟨storing 0, fun _ => .idle, []⟩ :=
  .start fun key => by simp [storing]

/-- `n` logins, each after the record of the one before, are `n` failures. -/
theorem in_sequence : ∀ n, n ≤ maxFailures →
    ∃ w, Reach lockout (fun w i => NoSuccess someKey w i ∧ Fresh someKey w i) w ∧ w.store = storing n ∧
      completed someKey w.trace = n ∧ w.pc 0 = .idle
  | 0, _ => ⟨_, atStart, rfl, rfl, rfl⟩
  | n + 1, hn => by
    obtain ⟨w, h, hs, hdone, hidle⟩ := in_sequence n (by omega)
    obtain ⟨w₁, h₁, hs₁, ht₁, hp₁, -⟩ := login_counted h
      (fun u hread hdrop => ⟨hdrop, fun m hm => absurd hm (hread m)⟩) hs (by omega) hidle
    have hfresh : NoSuccess someKey w₁ 0 ∧ Fresh someKey w₁ 0 := by
      refine ⟨by simp [NoSuccess, hp₁], fun m hm => .inl ?_⟩
      rw [hs₁, storing_count]
      exact ((Call.counted.injEq _ _ _ _).mp (hp₁.symm.trans hm)).2.symm
    obtain ⟨w₂, h₂, hs₂, ht₂, hp₂, -⟩ := h₁.move 0 hfresh hs₁ hp₁ .put
    refine ⟨w₂, h₂, by rw [hs₂, storing_put], ?_, hp₂⟩
    rw [ht₂, completed_append, ht₁, hdone, Nat.add_comm]
    simp [completed]

/-- `n` logins have all read the counter before one of them is recorded. -/
theorem all_counted : ∀ n : ℕ, ∃ w, Reach lockout (NoSuccess someKey) w ∧ w.store = storing 0 ∧
    completed someKey w.trace = 0 ∧ (∀ i < n, w.pc i = .counted someKey 0) ∧ ∀ i, n ≤ i → w.pc i = .idle
  | 0 => ⟨_, atStart, rfl, rfl, fun _ hi => absurd hi (Nat.not_lt_zero _), fun _ _ => rfl⟩
  | n + 1 => by
    obtain ⟨w, h, hs, hdone, hread, hidle⟩ := all_counted n
    obtain ⟨w₁, h₁, hs₁, ht₁, hp₁, ho₁⟩ := login_counted h (fun _ _ hdrop => hdrop) hs (by decide) (hidle n le_rfl)
    refine ⟨w₁, h₁, hs₁, ht₁.trans hdone, fun i hi => ?_, fun i hi => ?_⟩
    · rcases Nat.lt_succ_iff_lt_or_eq.mp hi with hlt | rfl
      · rw [ho₁ i (by omega), hread i hlt]
      · exact hp₁
    · rw [ho₁ i (by omega), hidle i (by omega)]

/-- Their records then leave the counter at one. -/
theorem all_recorded (n : ℕ) : ∀ m, m ≤ n → ∃ w, Reach lockout (NoSuccess someKey) w ∧
    w.store = storing (min m 1) ∧ completed someKey w.trace = m ∧ ∀ i, m ≤ i → i < n → w.pc i = .counted someKey 0
  | 0, _ => by
    obtain ⟨w, h, hs, hdone, hread, -⟩ := all_counted n
    exact ⟨w, h, hs, hdone, fun i _ hi => hread i hi⟩
  | m + 1, hm => by
    obtain ⟨w, h, hs, hdone, hread⟩ := all_recorded n m (by omega)
    have hpc := hread m le_rfl (by omega)
    obtain ⟨w₁, h₁, hs₁, ht₁, -, ho₁⟩ := h.move m (by simp [NoSuccess, hpc]) hs hpc .put
    refine ⟨w₁, h₁, ?_, ?_, fun i hi hlt => ?_⟩
    · rw [hs₁, storing_put, Nat.min_eq_right (by omega)]
    · rw [ht₁, completed_append, hdone, Nat.add_comm]
      simp [completed]
    · rw [ho₁ i (by omega), hread i (by omega) hlt]

end OneMail.Admin
